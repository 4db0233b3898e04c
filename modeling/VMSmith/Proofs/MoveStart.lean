/-
A move and a start of the same VM.

The move looks at the domain's state twice and then goes through several steps, with the old
directory removed at the end, and with the new one given up if any of them fails.  A start that
lands in between runs the domain on files that are about to go.

`Apart` is the condition on a step that excludes this: no start between the second look and the
new definition, nor while that definition is being taken back; no renaming under a domain that
runs; and no failure after the new definition while the domain runs on it.
-/
import VMSmith.System.Trees
import VMSmith.VM.MoveSys
import VMSmith.VM.Document
import VMSmith.VM.OffStore

namespace VMSmith

open Prog

/-- A record but for its state and the time of its last change. -/
def Restated (r vm : VM) : Prop := ∃ state at_, vm = { r with state := state, updatedAt := at_ }

theorem Restated.refl (r : VM) : Restated r r := ⟨r.state, r.updatedAt, rfl⟩

theorem Restated.trans {r s t : VM} (h : Restated r s) (h' : Restated s t) : Restated r t := by
  obtain ⟨_, _, rfl⟩ := h
  obtain ⟨state, at_, rfl⟩ := h'
  exact ⟨state, at_, rfl⟩

/-! ### What a call does -/

namespace MoveNote

/-- Where the domain is to be defined over next. -/
def target (v : MoveNote) (r : VM) : HostPath :=
  if v.stage = .checked then v.destination.join r.diskPath.base else r.diskPath

/-- The directory is in its new place, and it may have to go back. -/
def Undoable (v : MoveNote) : Prop :=
  v.stage = .moved ∨ v.stage = .checked ∨ v.stage = .failing ∨ v.stage = .restored

end MoveNote

namespace MoveNote

variable {v : MoveNote}

@[simp] theorem fails_record (v : MoveNote) : v.fails.record = v.record := by
  unfold fails
  split_ifs <;> rfl

@[simp] theorem defines_record (v : MoveNote) : v.defines.record = v.record := by
  unfold defines
  split <;> rfl

/-- Only reading the record changes the one that was read. -/
theorem record_add {c : Cmd} (r : c.Resp) (hc : ∀ i, c ≠ .store (.getVM i)) : (v.add c r).record = v.record := by
  unfold add
  split
  case h_1 => exact absurd rfl (hc _)
  case h_5 => split_ifs <;> rfl
  all_goals simp

/-- A record that has been read is not forgotten. -/
theorem record_of_add {c : Cmd} {r : c.Resp} (h : (v.add c r).record = none) : v.record = none := by
  unfold add at h
  split at h
  case h_1 => simp at h
  case h_5 =>
    split_ifs at h
    · exact h
    · exact h
  all_goals simpa using h

end MoveNote

namespace MoveCall

/-- Which commands a start may issue, after what it has been answered. -/
def startOk (id : String) (v : MoveNote) : Cmd → Prop
  | .store (.getVM i) => i = id
  | .store (.putVM vm) => ∃ r, v.record = some r ∧ Restated r vm
  | .virt (.lookupDomainByName _) | .virt (.create _) | .host .now => True
  | _ => False

/-- Which commands a move may issue. -/
def moveOk (id : String) (v : MoveNote) : Cmd → Prop
  | .store (.getVM i) => i = id ∧ v.record = none
  | .store (.putVM _) => v.stage = .repointed ∧ v.record.isSome
  | .virt (.lookupDomainByName name) => ∃ r, v.record = some r ∧ name = r.name
  | .virt (.getState dom) => v.dom = some dom
  | .virt (.getUUIDString dom) => v.dom = some dom
  | .virt (.domainDefineXML xml) => (v.stage = .checked ∨ v.stage = .failing) ∧ xml.uuid = v.uuid ∧
      ∃ r, v.record = some r ∧ xml.name = r.spec.name ∧ xml.diskPath = v.target r
  | .virt (.listSnapshots _) | .virt (.snapshotXML _ _ _) | .virt (.redefineSnapshot _ _) => True
  | .file (.relocate source destination) => v.stage = .before ∧ ∃ r, v.record = some r ∧
      source = r.diskPath.dir ∧ source ≠ destination ∧ destination.within source = false
  | .file (.commitRelocation source renamed) => v.stage = .repointed ∧ renamed = v.renamed ∧
      ∃ r, v.record = some r ∧ source = r.diskPath.dir
  | .file (.rollbackRelocation source destination renamed) => v.Undoable ∧ renamed = v.renamed ∧
      destination = v.destination ∧ ∃ r, v.record = some r ∧ source = r.diskPath.dir
  | .file (.statDir _) | .file (.lstat _) | .file (.evalSymlinks _) | .file (.sameFilesystem _ _)
  | .file (.dirAllocatedBytes _) | .file (.freeBytes _) | .host .now => True
  | _ => False

def ok (id : String) : MoveCall → MoveNote → Cmd → Prop
  | .move _ => moveOk id
  | .start => startOk id

end MoveCall

section Move

variable {id : String} {d : Daemon} {v : MoveNote} {r : VM} {dom : Nat}

abbrev moveSem (id : String) : Sem Cmd Cmd.Resp MoveNote := Sem.account MoveNote.add (MoveCall.moveOk id)

/-- The commands that only look, and not at the domain. -/
def Cmd.MerelyLooks : Cmd → Prop
  | .file (.statDir _) | .file (.lstat _) | .file (.evalSymlinks _) | .file (.sameFilesystem _ _)
  | .file (.dirAllocatedBytes _) | .file (.freeBytes _) | .host .now => True
  | _ => False

theorem wp_merelyLooks {α : Type} {p : M α} (hp : Only Cmd.MerelyLooks p)
    {Q : Except Err α → MoveNote → Prop} (hQ : ∀ res, Q res v) : wp (moveSem id) p Q v := by
  refine wp_of_only (fun v' => v' = v) (fun v' c _ hc => ?_) (fun v' c res v'' hv hc hnext => ?_) hp rfl
    fun res v' hv => hv ▸ hQ res
  · cases c with
    | store c | virt c | net c => exact hc.elim
    | file c => cases c <;> first | exact hc.elim | exact trivial
    | host c => cases c <;> first | exact hc.elim | exact trivial
  · have hnext : v'' = v'.add c res := hnext
    rw [hnext, ← hv]
    cases c with
    | store c | virt c | net c => exact hc.elim
    | file c => cases c <;> first | exact hc.elim | rfl
    | host c => cases c <;> first | exact hc.elim | rfl

theorem only_resolveDiskLocation (name : String) :
    Only Cmd.MerelyLooks (Manager.resolveDiskLocation d name) := by
  unfold Manager.resolveDiskLocation
  cases d.cfg.storage.resolveDiskLocation name with
  | error e => exact .throw _
  | ok loc =>
      refine (only_perform (by exact trivial)).bind fun there => (only_failIf _ _).bind fun _ => ?_
      split
      · refine (only_perform (by exact trivial)).bind fun real => ?_
        cases real with
        | error e => exact .throw _
        | ok real =>
            dsimp only
            split
            · exact .ret _
            · split
              · exact .ret _
              · exact .throw _
      · exact .ret _

theorem only_checkRoom (source : HostPath) (loc : DiskLocation) :
    Only Cmd.MerelyLooks (Manager.checkRoom source loc) := by
  refine (only_wrapped (only_perform (by exact trivial)) _).bind fun _ => ?_
  exact (only_wrapped (only_perform (by exact trivial)) _).bind fun _ => only_failIf _ _

/-- A redefinition is of the domain looked up, over where it is to be next. -/
theorem wp_redefineDomain {storedVM : VM} {newSpec : VMSpec} {Q : Except Err Unit → MoveNote → Prop}
    (hrecord : v.record = some r) (hdom : v.dom = some dom)
    (hstage : v.stage = .checked ∨ v.stage = .failing) (hname : newSpec.name = r.spec.name)
    (hdisk : storedVM.diskPath = v.target r)
    (hok : ∀ uuid, Q (.ok ()) { v with uuid := uuid }.defines)
    (herr : ∀ uuid e, Q (.error e) { v with uuid := uuid }) :
    wp (moveSem id) (Manager.redefineDomain d dom storedVM newSpec) Q v := by
  rw [Manager.redefineDomain_eq]
  refine wp_account_call.mpr ⟨hdom, fun uuid => ?_⟩
  show wp _ (orFail _ >>= _) _ { v with uuid := uuid }
  rw [bind_eq, wp_bind, wp_orFail]
  cases hxml : recordXML d storedVM newSpec uuid with
  | error e => exact herr uuid e
  | ok xml =>
      obtain ⟨hxname, hxuuid, hxdisk⟩ := recordXML_ok hxml
      refine wp_account_call.mpr ⟨⟨hstage, hxuuid, r, hrecord, hxname.trans hname, hxdisk.trans hdisk⟩, ?_⟩
      rintro (e | u)
      · exact (wp_throw _ _ _).mpr (herr uuid _)
      · exact (wp_ret _ _ _).mpr (hok uuid)

/-- The snapshots are redefined as far as nothing fails. -/
theorem wp_rewriteSnapshots {Q : Except Err Nat → MoveNote → Prop} (oldDir newDir : HostPath)
    (names : List String) (n : Nat) (hok : ∀ n, Q (.ok n) v) (herr : ∀ e, Q (.error e) v.fails) :
    wp (moveSem id) (Manager.rewriteSnapshots dom oldDir newDir names n) Q v := by
  induction names generalizing n with
  | nil => exact (wp_ret _ _ _).mpr (hok n)
  | cons name names ih =>
      rw [Manager.rewriteSnapshots]
      refine wp_account_call.mpr ⟨trivial, ?_⟩
      rintro (e | raw)
      · exact (wp_throw _ _ _).mpr (herr _)
      · show wp _ (if rewriteDiskDirInXML oldDir newDir raw = raw then _ else _) _ v
        split_ifs
        · exact ih n
        · refine wp_account_call.mpr ⟨trivial, ?_⟩
          rintro (e | u)
          · exact (wp_throw _ _ _).mpr (herr _)
          · exact ih (n + 1)

theorem wp_rewriteSnapshotsDiskDir {Q : Except Err Nat → MoveNote → Prop} (oldDir newDir : HostPath)
    (hok : ∀ n, Q (.ok n) v) (herr : ∀ e, Q (.error e) v.fails) :
    wp (moveSem id) (Manager.rewriteSnapshotsDiskDir dom oldDir newDir) Q v := by
  refine wp_account_call.mpr ⟨trivial, ?_⟩
  rintro (e | names)
  · exact (wp_throw _ _ _).mpr (herr _)
  · exact wp_rewriteSnapshots oldDir newDir names 0 hok herr

/-- What is undone is undone in order: the domain first, then the directory. -/
theorem wp_rollback {α : Type} {destination : HostPath} {renamed : Bool} {p : M α} (hv : v.Undoable)
    (hrecord : v.record = some r) (hdestination : destination = v.destination)
    (hrenamed : renamed = v.renamed)
    (hp : wp (moveSem id) p (fun _ _ => True) { v with stage := .over }) :
    wp (moveSem id) (Manager.rollbackRelocation r.diskPath.dir destination renamed >>= fun _ => p)
      (fun _ _ => True) v :=
  wp_account_call.mpr ⟨⟨hv, hrenamed, hdestination, r, hrecord, rfl⟩, fun _ => hp⟩

theorem wp_restoreAndRollback {α : Type} {destination : HostPath} {renamed : Bool} {p : M α}
    (hstage : v.stage = .failing) (hrecord : v.record = some r) (hdom : v.dom = some dom)
    (hdestination : destination = v.destination) (hrenamed : renamed = v.renamed)
    (hp : ∀ v', wp (moveSem id) p (fun _ _ => True) v') :
    wp (moveSem id) (Manager.restoreDomain d dom r >>= fun _ =>
      Manager.rollbackRelocation r.diskPath.dir destination renamed >>= fun _ => p)
      (fun _ _ => True) v := by
  rw [bind_eq, wp_bind]
  unfold Manager.restoreDomain
  rw [bind_eq, wp_bind, wp_attempt]
  refine wp_redefineDomain hrecord hdom (.inr hstage) rfl (by rw [MoveNote.target, if_neg (by simp [hstage])])
    (fun uuid => ?_) fun uuid e => ?_
  · refine (wp_ret _ _ _).mpr ?_
    have hdefines : MoveNote.defines { v with uuid := uuid } =
        { v with uuid := uuid, stage := .restored, pointed := false } := by
      simp [MoveNote.defines, hstage]
    rw [hdefines]
    exact wp_rollback (.inr (.inr (.inr rfl))) hrecord hdestination hrenamed (hp _)
  · refine (wp_ret _ _ _).mpr ?_
    exact wp_rollback (.inr (.inr (.inl hstage))) hrecord hdestination hrenamed (hp _)

/-- The snapshots are redefined over the old directory again, or not. -/
theorem wp_rewriteBack {c : Prop} [Decidable c] {oldDir newDir : HostPath}
    {Q : Except Err Unit → MoveNote → Prop} (hfails : v.fails = v) (hQ : Q (.ok ()) v) :
    wp (moveSem id) (onlyIf c do
      let _ ← (Manager.rewriteSnapshotsDiskDir dom oldDir newDir).attempt) Q v := by
  rw [wp_onlyIf]
  refine ⟨fun _ => ?_, fun _ => hQ⟩
  rw [bind_eq, wp_bind, wp_attempt]
  refine wp_rewriteSnapshotsDiskDir _ _ (fun _ => (wp_ret _ _ _).mpr hQ) fun _ => (wp_ret _ _ _).mpr ?_
  rwa [hfails]

/-- What follows the second look. -/
theorem wp_repoint {moved : VM} {source destination : HostPath} {renamed : Bool}
    (hstage : v.stage = .checked) (hrecord : v.record = some r) (hdom : v.dom = some dom)
    (hsource : source = r.diskPath.dir) (hdestination : destination = v.destination)
    (hrenamed : renamed = v.renamed) (hname : moved.spec.name = r.spec.name)
    (hdisk : moved.diskPath = destination.join r.diskPath.base) :
    wp (moveSem id) (Manager.repoint d dom r moved source destination renamed) (fun _ _ => True) v := by
  subst hsource
  unfold Manager.repoint
  rw [bind_eq, wp_bind, wp_attempt]
  refine wp_redefineDomain hrecord hdom (.inl hstage) hname ?_ (fun uuid => ?_) fun uuid e => ?_
  · rw [hdisk, MoveNote.target, if_pos hstage, hdestination]
  · dsimp only
    rw [bind_eq, wp_bind, wp_attempt]
    have hdefines : MoveNote.defines { v with uuid := uuid } =
        { v with uuid := uuid, stage := .repointed, pointed := true } := by
      simp [MoveNote.defines, hstage]
    rw [hdefines]
    -- whatever fails from here on, the domain and the directory are put back
    have hundo : ∀ {e : Err}, wp (moveSem id) (do
        Manager.restoreDomain d dom r
        Manager.rollbackRelocation r.diskPath.dir destination renamed
        .throw e : M VM) (fun _ _ => True) { v with uuid := uuid, stage := .failing, pointed := true } :=
      wp_restoreAndRollback rfl hrecord hdom hdestination hrenamed fun _ => (wp_throw _ _ _).mpr trivial
    refine wp_rewriteSnapshotsDiskDir _ _ (fun rewritten => ?_) fun e => ?_
    swap
    · show wp _ ((Manager.rewriteSnapshotsDiskDir dom destination r.diskPath.dir).attempt >>= _) _ _
      rw [bind_eq, wp_bind, wp_attempt]
      exact wp_rewriteSnapshotsDiskDir _ _ (fun _ => hundo) fun _ => hundo
    refine wp_account_call.mpr ⟨⟨rfl, Option.isSome_of_eq_some hrecord⟩, ?_⟩
    rintro (e | u)
    · show wp _ (onlyIf (0 < rewritten) _ >>= _) _ _
      rw [bind_eq, wp_bind]
      exact wp_rewriteBack rfl hundo
    · refine wp_account_call.mpr ⟨⟨rfl, hrenamed, r, hrecord, rfl⟩, fun _ => ?_⟩
      exact (wp_ret _ _ _).mpr trivial
  · exact wp_rollback (.inr (.inl hstage)) hrecord hdestination hrenamed ((wp_throw _ _ _).mpr trivial)

theorem movedVM_spec_name (storedVM : VM) (loc : DiskLocation) (destination : HostPath) (at_ : Nat) :
    (Manager.movedVM storedVM loc destination at_).spec.name = storedVM.spec.name := by
  unfold Manager.movedVM
  rfl

theorem movedVM_diskPath (storedVM : VM) (loc : DiskLocation) (destination : HostPath) (at_ : Nat) :
    (Manager.movedVM storedVM loc destination at_).diskPath = destination.join storedVM.diskPath.base := by
  unfold Manager.movedVM
  rfl

/-- What follows the relocation. -/
theorem wp_relocated {loc : DiskLocation} {renamed : Bool} {destination : HostPath}
    (hstage : v.stage = .moved) (hrecord : v.record = some r) (hdom : v.dom = some dom)
    (hdestination : destination = v.destination) (hrenamed : renamed = v.renamed) :
    wp (moveSem id) (do
      match ← virtCall (.getState dom) with
      | .ok .shutoff => do
          let moved := Manager.movedVM r loc destination (← now)
          Manager.repoint d dom r moved r.diskPath.dir destination renamed
      | _ => do
          Manager.rollbackRelocation r.diskPath.dir destination renamed
          .throw Manager.vmStarted) (fun _ _ => True) v := by
  have hbad : wp (moveSem id) (do
      Manager.rollbackRelocation r.diskPath.dir destination renamed
      .throw Manager.vmStarted : M VM) (fun _ _ => True) v :=
    wp_rollback (.inl hstage) hrecord hdestination hrenamed ((wp_throw _ _ _).mpr trivial)
  refine wp_account_call.mpr ⟨hdom, ?_⟩
  rintro (e | state)
  · exact hbad
  cases state with
  | running | blocked | paused | shutdown | crashed | pmsuspended => exact hbad
  | shutoff =>
      have hchecked : v.add (.virt (.getState dom)) (.ok .shutoff) = { v with stage := .checked } :=
        if_pos hstage
      rw [hchecked]
      refine wp_account_call.mpr ⟨trivial, fun at_ => ?_⟩
      exact wp_repoint rfl hrecord hdom rfl hdestination hrenamed (movedVM_spec_name ..)
        (movedVM_diskPath ..)

/-- **A move is in order**, whatever it is answered. -/
theorem wp_moveDisk (location : String) :
    wp (moveSem id) (Manager.moveDisk d id location) (fun _ _ => True) {} := by
  unfold Manager.moveDisk
  rw [bind_eq, wp_bind]
  refine wp_account_call.mpr ⟨⟨rfl, rfl⟩, ?_⟩
  rintro (e | r)
  · exact (wp_throw _ _ _).mpr trivial
  refine (wp_ret _ _ _).mpr ?_
  dsimp only
  rw [bind_eq, wp_bind]
  refine wp_merelyLooks (only_resolveDiskLocation location) ?_
  rintro (e | loc)
  · trivial
  dsimp only
  rw [bind_eq, wp_bind, wp_failIf]
  refine ⟨fun _ => trivial, fun hne => ?_⟩
  dsimp only
  rw [bind_eq, wp_bind, wp_failIf]
  refine ⟨fun _ => trivial, fun hout => ?_⟩
  dsimp only
  rw [bind_eq, wp_bind]
  refine wp_account_call.mpr ⟨⟨r, rfl, rfl⟩, ?_⟩
  rintro (e | dom)
  · exact (wp_throw _ _ _).mpr trivial
  refine (wp_ret _ _ _).mpr ?_
  dsimp only
  rw [bind_eq, wp_bind]
  refine wp_account_call.mpr ⟨rfl, ?_⟩
  rintro (e | state)
  · exact (wp_throw _ _ _).mpr trivial
  refine (wp_ret _ _ _).mpr ?_
  -- the first look says nothing about later
  have hlook : ∀ v' : MoveNote, v'.stage = .before →
      v'.add (.virt (.getState dom)) (.ok state) = v' := by
    intro v' hv'
    cases state with
    | shutoff => exact if_neg (by rw [hv']; decide)
    | running | blocked | paused | shutdown | crashed | pmsuspended => rfl
  rw [hlook _ rfl]
  dsimp only
  rw [bind_eq, wp_bind, wp_failIf]
  refine ⟨fun _ => trivial, fun _ => ?_⟩
  dsimp only
  refine wp_account_call.mpr ⟨trivial, fun there => ?_⟩
  rw [ret_bind, bind_eq, wp_bind, wp_failIf]
  refine ⟨fun _ => trivial, fun _ => ?_⟩
  dsimp only
  refine wp_account_call.mpr ⟨trivial, fun same => ?_⟩
  rw [ret_bind, bind_eq, wp_bind]
  refine wp_merelyLooks (only_when (only_checkRoom _ loc)) ?_
  rintro (e | u)
  · trivial
  dsimp only
  rw [bind_eq, wp_bind]
  refine wp_account_call.mpr ⟨⟨rfl, r, rfl, rfl, hne, by simpa using hout⟩, ?_⟩
  rintro (e | renamed)
  · exact (wp_throw _ _ _).mpr trivial
  refine (wp_ret _ _ _).mpr ?_
  exact wp_relocated rfl rfl rfl rfl rfl

theorem wp_start : wp (Sem.account MoveNote.add (MoveCall.startOk id)) (Manager.start id)
    (fun _ _ => True) {} := by
  refine wp_account_call.mpr ⟨rfl, ?_⟩
  rintro (e | r)
  · exact (wp_throw _ _ _).mpr trivial
  refine wp_account_call.mpr ⟨trivial, ?_⟩
  rintro (e | dom)
  · exact (wp_throw _ _ _).mpr trivial
  refine wp_account_call.mpr ⟨trivial, ?_⟩
  rintro (e | u)
  · exact (wp_throw _ _ _).mpr trivial
  refine wp_account_call.mpr ⟨trivial, fun at_ => ?_⟩
  refine wp_account_call.mpr ⟨⟨r, rfl, .running, at_, rfl⟩, ?_⟩
  rintro (e | u)
  · exact (wp_throw _ _ _).mpr trivial
  · exact (wp_ret _ _ _).mpr trivial

end Move

/-- **Every call is in order**, by its log. -/
theorem moveCall_alone (d : Daemon) (id : String) (op : MoveCall) :
    wp (Sem.alone fun log c => op.ok id (log.account MoveNote.add {}) c) (op.body d id)
      (fun _ _ => True) [] := by
  refine wp_alone_of_account (Q := fun _ _ => True) ?_
  cases op with
  | move location =>
      refine wp_bind.mpr (wp_mono ?_ (wp_moveDisk location))
      rintro (e | vm) v -
      · trivial
      · exact (wp_ret _ _ _).mpr trivial
  | start => exact wp_start

/-! ### Where the domain has its disk -/

theorem World.runsOn_eq_some {w : World} {u : Nat} {p : HostPath} : w.runsOn u = some p ↔
    ∃ a xml, w.virt.shape u = some a ∧ a.state = .running ∧ a.definition = some xml ∧ xml.diskPath = p := by
  unfold World.runsOn
  rw [Option.bind_eq_some_iff]
  constructor
  · rintro ⟨a, ha, hp⟩
    split_ifs at hp with hstate
    obtain ⟨xml, hxml, hdisk⟩ := Option.map_eq_some_iff.mp hp
    exact ⟨a, xml, ha, hstate, hxml, hdisk⟩
  · rintro ⟨a, xml, ha, hstate, hxml, rfl⟩
    exact ⟨a, ha, by rw [if_pos hstate, hxml]; rfl⟩

theorem World.exec_of_startable {c : Cmd} {x : Choice} {w w' : World} {r : c.Resp}
    (h : World.execStartable c x w = some (r, w')) :
    w.startable c x = true ∧ World.exec c x w = some (r, w') := by
  unfold World.execStartable at h
  split_ifs at h with hstart
  exact ⟨hstart, h⟩

/-- Where the domain's definition has the disk. -/
def MoveNote.disk (v : MoveNote) (vm : VM) : HostPath :=
  if v.pointed then v.destination.join vm.diskPath.base else vm.diskPath

/-- The domain and the directories, with a move this far. -/
structure DiskPlaced (u : Nat) (vm : VM) (v : MoveNote) (w : World) : Prop where
  shape : ∃ a xml, w.virt.shape u = some a ∧ a.name = vm.name ∧ a.definition = some xml ∧
    xml.diskPath = v.disk vm ∧ (a.state = .shutoff ∨
      a.state = .running ∧ w.file.has xml.diskPath = true ∧ v.exposed = false)
  above : v.stage = .before → ∀ q, vm.diskPath.within q = true → w.file.has q = true
  apart : v.stage ≠ .before → HostPath.Disjoint vm.diskPath.dir v.destination
  gone : v.renamed = true → v.stage ≠ .over → w.file.has vm.diskPath = false
  pointed : v.stage ≠ .over → (v.pointed = true ↔ v.stage = .repointed ∨ v.stage = .failing)

section DiskPlaced

variable {u : Nat} {vm : VM} {v v' : MoveNote} {w w' : World}

/-- Neither the domain nor a file has changed. -/
theorem DiskPlaced.same (h : DiskPlaced u vm v w) (hshape : w'.virt.shape u = w.virt.shape u)
    (hfile : w'.file = w.file) : DiskPlaced u vm v w' := by
  obtain ⟨hs, habove, hapart, hgone, hpointed⟩ := h
  exact ⟨by rwa [hshape, hfile], by rwa [hfile], hapart, by rwa [hfile], hpointed⟩

/-- Nor has what matters of the note. -/
theorem DiskPlaced.note (h : DiskPlaced u vm v w) (hstage : v'.stage = v.stage)
    (hdestination : v'.destination = v.destination) (hrenamed : v'.renamed = v.renamed)
    (hpointed : v'.pointed = v.pointed) : DiskPlaced u vm v' w := by
  have hdisk : v'.disk vm = v.disk vm := by rw [MoveNote.disk, MoveNote.disk, hpointed, hdestination]
  have hexposed : v'.exposed = v.exposed := by rw [MoveNote.exposed, MoveNote.exposed, hstage]
  obtain ⟨hs, habove, hapart, hgone, hp⟩ := h
  refine ⟨by rwa [hdisk, hexposed], by rwa [hstage], ?_, ?_, ?_⟩
  · rwa [hstage, hdestination]
  · rwa [hrenamed, hstage]
  · rwa [hstage, hpointed]

theorem DiskPlaced.running (h : DiskPlaced u vm v w) {p : HostPath} (hrun : w.runsOn u = some p) :
    w.file.has p = true ∧ p = v.disk vm ∧ v.exposed = false := by
  obtain ⟨a, xml, ha, -, hxml, hdisk, hstate⟩ := h.shape
  obtain ⟨b, xml', hb, hrunning, hxml', rfl⟩ := World.runsOn_eq_some.mp hrun
  obtain rfl := Option.some.inj (ha.symm.trans hb)
  obtain rfl := Option.some.inj (hxml.symm.trans hxml')
  rw [hrunning] at hstate
  simp only [reduceCtorEq, true_and, false_or] at hstate
  exact ⟨hstate.1, hdisk, hstate.2⟩

/-- A domain that does not run is shut off. -/
theorem DiskPlaced.stopped (h : DiskPlaced u vm v w) (hrun : w.runsOn u = none) :
    ∃ a xml, w.virt.shape u = some a ∧ a.name = vm.name ∧ a.definition = some xml ∧
      xml.diskPath = v.disk vm ∧ a.state = .shutoff := by
  obtain ⟨a, xml, ha, hname, hxml, hdisk, hstate⟩ := h.shape
  refine ⟨a, xml, ha, hname, hxml, hdisk, ?_⟩
  rcases hstate with hoff | ⟨hrunning, -⟩
  · exact hoff
  · rw [World.runsOn_eq_some.mpr ⟨a, xml, ha, hrunning, hxml, rfl⟩] at hrun
    simp at hrun

/-- What fails with the domain shut off is undone. -/
theorem DiskPlaced.fails (h : DiskPlaced u vm v w) (hrun : v.stage = .repointed → w.runsOn u = none) :
    DiskPlaced u vm v.fails w := by
  unfold MoveNote.fails
  split_ifs with hstage
  · have hpoint : v.pointed = true :=
      (h.pointed (by rw [hstage]; decide)).mpr (.inl hstage)
    obtain ⟨a, xml, ha, hname, hxml, hdisk, hoff⟩ := h.stopped (hrun hstage)
    refine ⟨⟨a, xml, ha, hname, hxml, hdisk, .inl hoff⟩, fun hb => by simp at hb,
      fun _ => h.apart (by rw [hstage]; decide), fun hren _ => h.gone hren (by rw [hstage]; decide),
      fun _ => by simp [hpoint]⟩
  · exact h

theorem within_dir (p : HostPath) : p.within p.dir = true :=
  HostPath.within_iff.mpr (List.dropLast_prefix p)

/-- The directory is renamed, under a domain that does not run, or copied. -/
theorem DiskPlaced.relocate {x : Choice} {destination : HostPath} {r : Except Err Bool} (h : DiskPlaced u vm v w)
    (hstage : v.stage = .before) (hne : destination.within vm.diskPath.dir = false)
    (hrun : x.fail.isSome ∨ x.flag = false ∨ w.runsOn u = none)
    (hexec : World.exec (.file (.relocate vm.diskPath.dir destination)) x w = some (r, w')) :
    DiskPlaced u vm (v.add (.file (.relocate vm.diskPath.dir destination)) r) w' := by
  obtain ⟨f, hf, rfl⟩ := World.exec_file hexec
  rcases fallible_eq hf with ⟨e, rfl, rfl⟩ | ⟨renamed, hx, hact, rfl⟩
  · exact h
  split_ifs at hact with hthere hflag
  all_goals obtain ⟨rfl, rfl⟩ := Prod.mk.inj (Except.ok.inj hact)
  all_goals
    have hout : vm.diskPath.dir.within destination = false := by
      by_contra hin
      rw [Bool.not_eq_false] at hin
      exact hthere (h.above hstage _ (HostPath.within_trans (within_dir _) hin))
    have hapart : HostPath.Disjoint vm.diskPath.dir destination := ⟨hout, hne⟩
    have hunpointed : v.pointed = false := by
      have := h.pointed (by rw [hstage]; decide)
      rw [hstage] at this
      simpa using this
    refine ⟨?_, fun hb => by simp [MoveNote.add] at hb, fun _ => hapart, ?_, fun _ => ?_⟩
  · obtain ⟨a, xml, ha, hname, hxml, hp, hoff⟩ := h.stopped (by simpa [hx, hflag] using hrun)
    exact ⟨a, xml, ha, hname, hxml, by simp [hp, MoveNote.add, MoveNote.disk, hunpointed], .inl hoff⟩
  · exact fun _ _ => FileState.has_rename_source hapart (within_dir _)
  · simp [MoveNote.add, hunpointed]
  · obtain ⟨a, xml, ha, hname, hxml, hp, hstate⟩ := h.shape
    refine ⟨a, xml, ha, hname, hxml, by simp [hp, MoveNote.add, MoveNote.disk, hunpointed], ?_⟩
    rcases hstate with hoff | ⟨hrunning, hhas, -⟩
    · exact .inl hoff
    · exact .inr ⟨hrunning, FileState.has_copyTree hhas, rfl⟩
  · exact fun hren => by simp [MoveNote.add] at hren
  · simp [MoveNote.add, hunpointed]

/-- The domain, which does not run then, is defined over where it is to be next. -/
theorem DiskPlaced.define {x : Choice} {xml : DomainXML} {r : Except Err Nat} (h : DiskPlaced u vm v w)
    (hstage : v.stage = .checked ∨ v.stage = .failing) (huuid : ∀ y, xml.uuid = some y → y = u)
    (hname : xml.name = vm.name) (hdisk : xml.diskPath = v.target vm)
    (hexec : World.exec (.virt (.domainDefineXML xml)) x w = some (r, w')) :
    DiskPlaced u vm (v.add (.virt (.domainDefineXML xml)) r) w' := by
  obtain ⟨t, ht, rfl⟩ := World.exec_virt hexec
  have hexposed : v.exposed = true := by
    rcases hstage with hs | hs <;> simp [MoveNote.exposed, hs]
  obtain ⟨a, old, ha, haname, hold, hp, hstate⟩ := h.shape
  have hoff : a.state = .shutoff := by
    rcases hstate with hoff | ⟨-, -, hno⟩
    · exact hoff
    · rw [hexposed] at hno
      simp at hno
  cases hxml : xml.uuid with
  | none =>
      obtain ⟨⟨e, rfl⟩, rfl⟩ := VirtState.exec_define_taken hxml ha (hname.trans haname.symm) ht
      exact h
  | some y =>
      obtain rfl := huuid y hxml
      rcases VirtState.exec_define_known hxml ha ht with ⟨⟨e, rfl⟩, rfl⟩ | ⟨rfl, -, ht'⟩
      · exact h
      show DiskPlaced y vm v.defines _
      rcases hstage with hs | hs
      · have hdef : v.defines = { v with stage := .repointed, pointed := true } := by
          simp [MoveNote.defines, hs]
        rw [hdef]
        refine ⟨⟨_, _, ht', haname, rfl, ?_, .inl hoff⟩, fun hb => by simp at hb,
          fun _ => h.apart (by rw [hs]; decide), fun hren _ => h.gone hren (by rw [hs]; decide),
          fun _ => by simp⟩
        simp [hdisk, MoveNote.target, hs, MoveNote.disk]
      · have hdef : v.defines = { v with stage := .restored, pointed := false } := by
          simp [MoveNote.defines, hs]
        rw [hdef]
        refine ⟨⟨_, _, ht', haname, rfl, ?_, .inl hoff⟩, fun hb => by simp at hb,
          fun _ => h.apart (by rw [hs]; decide), fun hren _ => h.gone hren (by rw [hs]; decide),
          fun _ => by simp⟩
        simp [hdisk, MoveNote.target, hs, MoveNote.disk]

/-- A directory goes that the domain does not run on. -/
theorem DiskPlaced.over {f : FileState} (h : DiskPlaced u vm v w) (hstage : v.stage ≠ .before)
    (hkept : ∀ p, w.runsOn u = some p → f.has p = true) :
    DiskPlaced u vm { v with stage := .over } { w with file := f } := by
  obtain ⟨a, xml, ha, hname, hxml, hp, hstate⟩ := h.shape
  refine ⟨⟨a, xml, ha, hname, hxml, hp, ?_⟩, fun hb => by simp at hb, fun _ => h.apart hstage,
    fun _ hb => by simp at hb, fun hb => by simp at hb⟩
  rcases hstate with hoff | ⟨hrunning, -, -⟩
  · exact .inl hoff
  · exact .inr ⟨hrunning, hkept _ (World.runsOn_eq_some.mpr ⟨a, xml, ha, hrunning, hxml, rfl⟩), rfl⟩

theorem DiskPlaced.rollback {x : Choice} {r : Except Err Unit} (h : DiskPlaced u vm v w) (hundo : v.Undoable)
    (hexec : World.exec (.file (.rollbackRelocation vm.diskPath.dir v.destination v.renamed)) x w =
      some (r, w')) : DiskPlaced u vm { v with stage := .over } w' := by
  obtain ⟨f, hf, rfl⟩ := World.exec_file hexec
  have hstage : v.stage ≠ .before ∧ v.stage ≠ .over := by
    rcases hundo with hs | hs | hs | hs <;> rw [hs] <;> decide
  have hwhere : ∀ p, w.runsOn u = some p → p = vm.diskPath := by
    intro p hrun
    obtain ⟨-, hp, hexposed⟩ := h.running hrun
    have hunpointed : v.pointed = false := by
      have := h.pointed hstage.2
      rcases hundo with hs | hs | hs | hs
      · simpa [hs] using this
      · simp [MoveNote.exposed, hs] at hexposed
      · simp [MoveNote.exposed, hs] at hexposed
      · simpa [hs] using this
    rw [hp, MoveNote.disk, hunpointed]
    rfl
  refine h.over hstage.1 fun p hrun => ?_
  obtain ⟨hhas, -, -⟩ := h.running hrun
  rcases fallible_ok hf with ⟨-, -, rfl⟩ | ⟨-, -, rfl⟩
  · exact hhas
  · obtain rfl := hwhere p hrun
    split_ifs with hren
    · rw [h.gone hren hstage.2] at hhas
      simp at hhas
    · exact FileState.has_removeAll.mpr ⟨hhas, (h.apart hstage.1).not_within (within_dir _)⟩

theorem DiskPlaced.commit {x : Choice} {r : Except Err Unit} (h : DiskPlaced u vm v w) (hstage : v.stage = .repointed)
    (hexec : World.exec (.file (.commitRelocation vm.diskPath.dir v.renamed)) x w = some (r, w')) :
    DiskPlaced u vm { v with stage := .over } w' := by
  obtain ⟨f, hf, rfl⟩ := World.exec_file hexec
  have hpointed : v.pointed = true := (h.pointed (by rw [hstage]; decide)).mpr (.inl hstage)
  refine h.over (by rw [hstage]; decide) fun p hrun => ?_
  obtain ⟨hhas, hp, -⟩ := h.running hrun
  rcases fallible_ok hf with ⟨-, -, rfl⟩ | ⟨-, -, rfl⟩
  · exact hhas
  split_ifs with hren
  · exact hhas
  · rw [hp, MoveNote.disk, if_pos hpointed] at hhas ⊢
    exact FileState.has_removeAll.mpr
      ⟨hhas, (h.apart (by rw [hstage]; decide)).symm.not_within (HostPath.within_join _ _)⟩

/-- The domain starts, on a disk that is there. -/
theorem DiskPlaced.start {x : Choice} {dom : Nat} {r : Except Err Unit} (h : DiskPlaced u vm v w)
    (hexposed : x.fail = none → dom = u → v.exposed = false)
    (hexec : World.execStartable (.virt (.create dom)) x w = some (r, w')) : DiskPlaced u vm v w' := by
  obtain ⟨hstart, hexec⟩ := World.exec_of_startable hexec
  obtain ⟨t, ht, rfl⟩ := World.exec_virt hexec
  obtain ⟨a, xml, ha, hname, hxml, hp, hstate⟩ := h.shape
  by_cases hdom : dom = u
  · subst hdom
    rcases VirtState.exec_move ht with ⟨-, rfl⟩ | ⟨b, hb, hx, -, -, hb'⟩
    · exact h
    obtain rfl := Option.some.inj (ha.symm.trans hb)
    refine ⟨⟨_, xml, hb', hname, hxml, hp, .inr ⟨rfl, ?_, hexposed hx rfl⟩⟩, h.above, h.apart, h.gone, h.pointed⟩
    simpa [World.startable, hx, ha, hxml] using hstart
  · exact h.same (VirtState.shape_exec (show ¬ VirtCmd.Shapes u (.create dom) from hdom) (by rw [ha]; rfl) ht) rfl

/-- The domain is seen shut off once more. -/
theorem DiskPlaced.check (h : DiskPlaced u vm v w) (hstage : v.stage = .moved) (hrun : w.runsOn u = none) :
    DiskPlaced u vm { v with stage := .checked } w := by
  obtain ⟨a, xml, ha, hname, hxml, hp, hoff⟩ := h.stopped hrun
  refine ⟨⟨a, xml, ha, hname, hxml, hp, .inl hoff⟩, fun hb => by simp at hb,
    fun _ => h.apart (by rw [hstage]; decide), fun hren _ => h.gone hren (by rw [hstage]; decide), fun _ => ?_⟩
  have := h.pointed (by rw [hstage]; decide)
  rw [hstage] at this
  simpa using this

/-- What the notes of a call say of the VM. -/
structure Reads (u : Nat) (vm : VM) (v : MoveNote) : Prop where
  record : ∀ r, v.record = some r → Restated vm r
  dom : ∀ y, v.dom = some y → y = u
  uuid : ∀ y, v.uuid = some y → y = u

/-- **One command of the move** leaves the domain where it has its disk. -/
theorem DiskPlaced.move {vmID : String} {x : Choice} {c : Cmd} {r : c.Resp} (h : DiskPlaced u vm v w)
    (hread : Reads u vm v) (hspec : vm.spec.name = vm.name) (hok : MoveCall.moveOk vmID v c)
    (hrename : ∀ source destination, c = .file (.relocate source destination) →
      x.fail.isSome ∨ x.flag = false ∨ w.runsOn u = none)
    (hfails : v.stage = .repointed → (v.add c r).stage = .failing → w.runsOn u = none)
    (hexec : World.exec c x w = some (r, w')) : DiskPlaced u vm (v.add c r) w' := by
  have hstored : ∀ {r' : VM}, v.record = some r' → r'.diskPath = vm.diskPath ∧ r'.spec.name = vm.name := by
    intro r' hr'
    obtain ⟨state, at_, rfl⟩ := hread.record r' hr'
    exact ⟨rfl, hspec⟩
  obtain ⟨a, -, ha, -⟩ := h.shape
  have hthere : (w.virt.shape u).isSome = true := by
    rw [ha]
    rfl
  cases c with
  | net c => exact hok.elim
  | host c =>
      obtain ⟨p, -, heq⟩ := Option.map_eq_some_iff.mp hexec
      rw [Prod.mk.injEq] at heq
      obtain ⟨-, rfl⟩ := heq
      exact h.same rfl rfl
  | store c =>
      obtain ⟨t, -, rfl⟩ := World.exec_store hexec
      have hsame : DiskPlaced u vm v { w with store := t } := h.same rfl rfl
      cases c with
      | getVM i =>
          cases r with
          | ok r' => exact hsame.note rfl rfl rfl rfl
          | error e => exact hsame
      | putVM vm' =>
          cases r with
          | ok y => exact hsame
          | error e =>
              refine hsame.fails fun hs => hfails hs ?_
              show v.fails.stage = .failing
              rw [MoveNote.fails, if_pos hs]
      | _ => exact hok.elim
  | virt c =>
      have hquiet : ¬ c.Shapes u → DiskPlaced u vm v w' ∧ w'.runsOn u = w.runsOn u := by
        intro hc
        obtain ⟨t, ht, rfl⟩ := World.exec_virt hexec
        have hshape := VirtState.shape_exec hc hthere ht
        exact ⟨h.same hshape rfl, by rw [World.runsOn, World.runsOn, hshape]⟩
      have hundone : ¬ c.Shapes u → v.add (.virt c) r = v.fails → DiskPlaced u vm (v.add (.virt c) r) w' := by
        intro hc hadd
        obtain ⟨hsame, hrun⟩ := hquiet hc
        rw [hadd]
        refine hsame.fails fun hs => ?_
        rw [hrun]
        exact hfails hs (by rw [hadd, MoveNote.fails, if_pos hs])
      cases c with
      | lookupDomainByName name =>
          cases r with
          | ok dom => exact (hquiet not_false).1.note rfl rfl rfl rfl
          | error e => exact (hquiet not_false).1
      | getUUIDString dom => exact (hquiet not_false).1.note rfl rfl rfl rfl
      | getState dom =>
          have hsame := (hquiet not_false).1
          cases r with
          | error e => exact hsame
          | ok state =>
              cases state with
              | running | blocked | paused | shutdown | crashed | pmsuspended => exact hsame
              | shutoff =>
                  show DiskPlaced u vm (if v.stage = .moved then { v with stage := .checked } else v) w'
                  split_ifs with hs
                  · refine hsame.check hs ?_
                    obtain ⟨t, ht, rfl⟩ := World.exec_virt hexec
                    obtain rfl := hread.dom dom hok
                    obtain ⟨rfl, hst⟩ := VirtState.exec_getState ht
                    obtain ⟨b, hb, hoff⟩ := hst .shutoff rfl
                    simp [World.runsOn, hb, hoff]
                  · exact hsame
      | domainDefineXML xml =>
          obtain ⟨hstage, huuid, r', hr', hname, hdisk⟩ := hok
          obtain ⟨hd, hn⟩ := hstored hr'
          refine h.define hstage (fun y hy => hread.uuid y (huuid.symm.trans hy)) (hname.trans hn) ?_ hexec
          rw [hdisk, MoveNote.target, MoveNote.target, hd]
      | listSnapshots dom | snapshotXML dom name secure | redefineSnapshot dom xml =>
          cases r with
          | ok y => exact (hquiet not_false).1
          | error e => exact hundone not_false rfl
      | _ => exact hok.elim
  | file c =>
      have hlook : ∀ {f : FileState}, w.file.exec x c = some (r, f) → f = w.file → DiskPlaced u vm v w' := by
        rintro f hf rfl
        obtain ⟨f', hf', rfl⟩ := World.exec_file hexec
        obtain rfl := (Prod.mk.inj (Option.some.inj (hf'.symm.trans hf))).2
        exact h.same rfl rfl
      cases c with
      | relocate source destination =>
          obtain ⟨hstage, r', hr', rfl, -, hout⟩ := hok
          rw [(hstored hr').1] at hexec hout ⊢
          exact h.relocate hstage hout (hrename _ _ rfl) hexec
      | commitRelocation source renamed =>
          obtain ⟨hstage, rfl, r', hr', rfl⟩ := hok
          rw [(hstored hr').1] at hexec
          exact h.commit hstage hexec
      | rollbackRelocation source destination renamed =>
          obtain ⟨hundo, rfl, rfl, r', hr', rfl⟩ := hok
          rw [(hstored hr').1] at hexec
          exact h.rollback hundo hexec
      | statDir p | lstat p | sameFilesystem p q =>
          obtain ⟨f, hf, rfl⟩ := World.exec_file hexec
          exact hlook hf (Prod.mk.inj (Option.some.inj hf)).2.symm
      | evalSymlinks p | dirAllocatedBytes p | freeBytes p =>
          obtain ⟨f, hf, rfl⟩ := World.exec_file hexec
          refine hlook hf ?_
          rcases fallible_ok hf with ⟨-, -, rfl⟩ | ⟨-, -, rfl⟩ <;> rfl
      | _ => exact hok.elim

end DiskPlaced

/-! ### Runs -/

namespace MoveSys

/-- Whether call `i` may have this command answered: the domain is not started while it is defined
over a directory that is about to go, its directory is not renamed while it runs, and nothing that
the move would have to undo fails then. -/
def mayGo (u : Nat) (s : MoveSys) (i : Nat) (x : Choice) : Cmd → Bool
  | .virt (.create dom) => x.fail.isSome || dom ≠ u || !s.note.exposed
  | .file (.relocate _ _) => x.fail.isSome || !x.flag || (s.world.runsOn u).isNone
  | c => i ≠ 0 || (s.world.runsOn u).isNone || s.note.stage ≠ .repointed ||
      (World.exec c x s.world).all fun answer => (s.note.add c answer.1).stage ≠ .failing

def apart (u : Nat) (s : MoveSys) (i : Nat) (t : MoveThread) (x : Choice) : Bool :=
  match t.prog with
  | .call c _ => mayGo u s i x c
  | _ => true

/-- The condition on a step. -/
def Apart (u : Nat) (s : MoveSys) : MoveLabel → Prop
  | .start => True
  | .step i x => ∀ t ∈ s.threads[i]?, apart u s i t x = true

instance (u : Nat) : ∀ (s : MoveSys) (l : MoveLabel), Decidable (Apart u s l)
  | _, .start => .isTrue trivial
  | _, .step _ _ => inferInstanceAs (Decidable (∀ _ ∈ _, _))

/-- A world in which the VM is stopped, with its domain defined over its disk. -/
structure Stopped (vmID : String) (u : Nat) (vm : VM) (w : World) : Prop where
  stored : w.store.vms.get? vmID = some vm
  shape : ∃ xml, w.virt.shape u = some ⟨vm.name, .shutoff, some xml⟩ ∧ xml.diskPath = vm.diskPath
  /-- No other domain has the name. -/
  named : ∀ p ∈ w.virt.idents, p.2 = vm.name → p.1 = u
  spec : vm.spec.name = vm.name
  /-- The disk is there, and so are the directories above it. -/
  there : ∀ q, vm.diskPath.within q = true → w.file.has q = true

structure Inv (vmID : String) (u : Nat) (vm : VM) (s : MoveSys) : Prop where
  sound : s.Sound (fun op log c => op.ok vmID (log.account MoveNote.add {}) c) fun _ _ _ => True
  mover : ∃ t location, s.threads[0]? = some t ∧ t.op = .move location
  starts : ∀ (i : Nat) (t : MoveThread), i ≠ 0 → s.threads[i]? = some t → t.op = .start
  named : ∀ p ∈ s.world.virt.idents, p.2 = vm.name → p.1 = u
  stored : s.note.record = none → ∀ r, s.world.store.vms.get? vmID = some r → Restated vm r
  copies : s.note.record = none → ∀ (i : Nat) (t : MoveThread) (r : VM), i ≠ 0 →
    s.threads[i]? = some t → t.note.record = some r → Restated vm r
  reads : Reads u vm s.note
  placed : DiskPlaced u vm s.note s.world

variable {d : Daemon} {vmID : String} {u : Nat} {vm : VM} {s s' : MoveSys}

theorem note_eq {t : MoveThread} (h : s.threads[0]? = some t) : s.note = t.note := by
  rw [note, h]
  rfl

theorem inv_init {location : String} {w : World} (h : Stopped vmID u vm w) :
    Inv vmID u vm (init d vmID location w) := by
  have hnote : (init d vmID location w).note = {} := rfl
  obtain ⟨xml, hshape, hdisk⟩ := h.shape
  refine ⟨?_, ⟨_, location, rfl, rfl⟩, fun i t hi ht => ?_, h.named, fun _ r hr => ?_, fun _ i t r hi ht => ?_,
    ?_, ?_⟩
  · intro t ht
    obtain rfl : t = _ := List.mem_singleton.mp ht
    exact moveCall_alone d vmID (.move location)
  · cases i with
    | zero => exact absurd rfl hi
    | succ i => simp [init, Pool.add] at ht
  · obtain rfl : vm = r := Option.some.inj (h.stored.symm.trans hr)
    exact .refl vm
  · cases i with
    | zero => exact absurd rfl hi
    | succ i => simp [init, Pool.add] at ht
  · rw [hnote]
    exact ⟨fun r hr => by simp at hr, fun y hy => by simp at hy, fun y hy => by simp at hy⟩
  · rw [hnote]
    exact ⟨⟨_, xml, hshape, rfl, rfl, hdisk, .inl rfl⟩, fun _ => h.there, fun hb => absurd rfl hb,
      fun hren => by simp at hren, fun _ => by simp⟩

/-- One more start changes nothing. -/
theorem inv_call (hs : Inv vmID u vm s) (h : step d vmID s .start = some s') : Inv vmID u vm s' := by
  have hsound := Pool.sound_step (moveCall_alone d vmID) hs.sound h
  obtain rfl : s.add .start (Manager.start vmID) = s' := Option.some.inj h
  obtain ⟨t, location, ht, hop⟩ := hs.mover
  have hfirst : (s.add .start (Manager.start vmID)).threads[0]? = some t := by
    rw [Pool.add, List.getElem?_append_left (List.getElem?_eq_some_iff.mp ht).1, ht]
  have hnote : note (s.add .start (Manager.start vmID)) = s.note := by
    rw [note_eq hfirst, note_eq ht]
  refine ⟨hsound, ⟨t, location, hfirst, hop⟩, fun i u hi hu => ?_, hs.named, ?_, ?_, ?_, ?_⟩
  · rcases Pool.getElem?_add hu with hold | ⟨-, rfl⟩
    · exact hs.starts i u hi hold
    · rfl
  · rw [hnote]
    exact hs.stored
  · rw [hnote]
    intro hnone i u r hi hu hr
    rcases Pool.getElem?_add hu with hold | ⟨-, rfl⟩
    · exact hs.copies hnone i u r hi hold hr
    · simp [MoveThread.note, Log.account] at hr
  · rw [hnote]
    exact hs.reads
  · rw [hnote]
    exact hs.placed

/-- No command of a call gives another domain the VM's name. -/
theorem named_kept {w w' : World} {x : Choice} {c : Cmd} {r : c.Resp} {a : DomainShape}
    (hnamed : ∀ p ∈ w.virt.idents, p.2 = vm.name → p.1 = u) (ha : w.virt.shape u = some a)
    (haname : a.name = vm.name)
    (hdefine : ∀ xml, c = .virt (.domainDefineXML xml) → xml.name = vm.name ∧ ∀ y, xml.uuid = some y → y = u)
    (hexec : World.exec c x w = some (r, w')) : ∀ p ∈ w'.virt.idents, p.2 = vm.name → p.1 = u := by
  cases c with
  | store c =>
      obtain ⟨t, -, rfl⟩ := World.exec_store hexec
      exact hnamed
  | net c | file c | host c =>
      obtain ⟨p, -, heq⟩ := Option.map_eq_some_iff.mp hexec
      rw [Prod.mk.injEq] at heq
      rw [← heq.2]
      exact hnamed
  | virt c =>
      obtain ⟨t, ht, rfl⟩ := World.exec_virt hexec
      suffices hshrinks : VirtState.Shrinks w.virt t from fun p hp => hnamed p (hshrinks.idents p hp)
      by_cases hc : ∃ xml, c = .domainDefineXML xml
      · obtain ⟨xml, rfl⟩ := hc
        obtain ⟨hname, huuid⟩ := hdefine xml rfl
        cases hxml : xml.uuid with
        | none =>
            obtain ⟨-, rfl⟩ := VirtState.exec_define_taken hxml ha (hname.trans haname.symm) ht
            exact .refl _
        | some y =>
            obtain rfl := huuid y hxml
            exact VirtState.exec_define_known_shrinks hxml ha ht
      · exact VirtState.exec_shrinks (fun xml hxml => hc ⟨xml, hxml⟩) ht

/-- What the move learns of the VM is true. -/
theorem reads_kept {w w' : World} {v : MoveNote} {x : Choice} {c : Cmd} {r : c.Resp}
    (h : Reads u vm v) (hok : MoveCall.moveOk vmID v c)
    (hnamed : ∀ p ∈ w.virt.idents, p.2 = vm.name → p.1 = u)
    (hstored : v.record = none → ∀ r, w.store.vms.get? vmID = some r → Restated vm r)
    (hexec : World.exec c x w = some (r, w')) : Reads u vm (v.add c r) := by
  have hsame : ∀ v' : MoveNote, v'.record = v.record → v'.dom = v.dom → v'.uuid = v.uuid → Reads u vm v' := by
    intro v' hr hd hu
    exact ⟨hr ▸ h.record, hd ▸ h.dom, hu ▸ h.uuid⟩
  have hfails : Reads u vm v.fails := by
    unfold MoveNote.fails
    split_ifs
    · exact hsame _ rfl rfl rfl
    · exact h
  cases c with
  | net c => exact hok.elim
  | host c => exact h
  | store c =>
      cases c with
      | getVM i =>
          obtain ⟨t, ht, rfl⟩ := World.exec_store hexec
          cases r with
          | error e => exact h
          | ok r =>
              obtain ⟨rfl, hnone⟩ := hok
              refine ⟨fun r' hr' => ?_, h.dom, h.uuid⟩
              obtain rfl : r = r' := Option.some.inj hr'
              exact hstored hnone _ ((StoreState.exec_getVM ht).2 _ rfl)
      | putVM vm' =>
          cases r with
          | ok y => exact h
          | error e => exact hfails
      | _ => exact hok.elim
  | virt c =>
      obtain ⟨t, ht, rfl⟩ := World.exec_virt hexec
      cases c with
      | lookupDomainByName name =>
          cases r with
          | error e => exact h
          | ok dom =>
              obtain ⟨r, hr, rfl⟩ := hok
              refine ⟨h.record, fun y hy => ?_, h.uuid⟩
              obtain rfl : dom = y := Option.some.inj hy
              obtain ⟨state, at_, rfl⟩ := h.record r hr
              exact hnamed _ ((VirtState.exec_lookup ht).2 _ rfl) rfl
      | getUUIDString dom =>
          refine ⟨h.record, h.dom, fun y hy => ?_⟩
          obtain rfl := h.dom dom hok
          have hr : r = some y := hy
          subst hr
          simp only [VirtState.exec] at ht
          split_ifs at ht
          · simp at ht
          · obtain ⟨b, hb, rfl⟩ := Option.map_eq_some_iff.mp (Prod.mk.inj (Option.some.inj ht)).1
            exact VirtState.uuid_of_find? hb
      | getState dom =>
          cases r with
          | error e => exact h
          | ok state =>
              cases state with
              | running | blocked | paused | shutdown | crashed | pmsuspended => exact h
              | shutoff =>
                  show Reads u vm (if v.stage = .moved then { v with stage := .checked } else v)
                  split_ifs
                  · exact hsame _ rfl rfl rfl
                  · exact h
      | domainDefineXML xml =>
          cases r with
          | error e => exact h
          | ok y =>
              show Reads u vm v.defines
              unfold MoveNote.defines
              split
              · exact hsame _ rfl rfl rfl
              · exact hsame _ rfl rfl rfl
              · exact h
      | listSnapshots dom | snapshotXML dom name secure | redefineSnapshot dom xml =>
          cases r with
          | ok y => exact h
          | error e => exact hfails
      | _ => exact hok.elim
  | file c =>
      cases c with
      | relocate source destination =>
          cases r with
          | ok renamed => exact hsame _ rfl rfl rfl
          | error e => exact h
      | commitRelocation source renamed => exact hsame _ rfl rfl rfl
      | rollbackRelocation source destination renamed => exact hsame _ rfl rfl rfl
      | _ => exact h

/-- **One command of the move.** -/
theorem inv_move (hspec : vm.spec.name = vm.name) (hs : Inv vmID u vm s) {x : Choice}
    (hapart : Apart u s (.step 0 x)) (h : step d vmID s (.step 0 x) = some s') : Inv vmID u vm s' := by
  have hsound := Pool.sound_step (moveCall_alone d vmID) hs.sound h
  obtain ⟨t, c, k, r, w', ht, -, hprog, hexec, rfl⟩ := Pool.step_step h
  obtain ⟨-, hexec⟩ := World.exec_of_startable hexec
  obtain ⟨t₀, location, ht₀, hop⟩ := hs.mover
  obtain rfl : t₀ = t := Option.some.inj (ht₀.symm.trans ht)
  have hlt := (List.getElem?_eq_some_iff.mp ht).1
  have hfirst : (s.threads.set 0 (t₀.advance c r (k r)))[0]? = some (t₀.advance c r (k r)) :=
    List.getElem?_set_self hlt
  have hnote : note { world := w', threads := s.threads.set 0 (t₀.advance c r (k r)) } = s.note.add c r := by
    rw [note_eq hfirst, note_eq ht]
    rfl
  have hok : MoveCall.moveOk vmID s.note c := by
    have := hs.sound.allowed ht hprog
    rw [hop] at this
    rw [note_eq ht]
    exact this
  have hturn : mayGo u s 0 x c = true := by
    have := hapart t₀ (Option.mem_def.mpr ht)
    simpa only [apart, hprog] using this
  have hplaced : DiskPlaced u vm (s.note.add c r) w' := by
    refine hs.placed.move hs.reads hspec hok ?_ (fun hstage hfailing => ?_) hexec
    · rintro source destination rfl
      simpa [mayGo, or_assoc] using hturn
    · by_contra hrun
      have hgo : mayGo u s 0 x c = ((s.world.runsOn u).isNone || s.note.stage ≠ .repointed ||
          (World.exec c x s.world).all fun answer => (s.note.add c answer.1).stage ≠ .failing) := by
        unfold mayGo
        split
        · exact hok.elim
        · rw [hok.1] at hstage
          simp at hstage
        · simp
      rw [hgo, hexec] at hturn
      simp [hstage, hfailing, Option.isNone_iff_eq_none, hrun] at hturn
  have hother : ∀ {i : Nat} {t : MoveThread}, i ≠ 0 →
      (s.threads.set 0 (t₀.advance c r (k r)))[i]? = some t → s.threads[i]? = some t := by
    intro i t hi hget
    rwa [List.getElem?_set_ne (Ne.symm hi)] at hget
  -- once the record has been read, the store may say what it will
  have hbefore : (s.note.add c r).record = none → s.note.record = none ∧
      w'.store.vms.get? vmID = s.world.store.vms.get? vmID := by
    intro hnone
    have hnone' := MoveNote.record_of_add hnone
    refine ⟨hnone', ?_⟩
    by_cases hc : c.OffStore
    · rw [World.exec_offStore hc hexec]
    cases c with
    | virt c | net c | file c | host c => exact absurd trivial hc
    | store c =>
        obtain ⟨t, ht, rfl⟩ := World.exec_store hexec
        cases c with
        | getVM i => rw [(StoreState.exec_getVM ht).1]
        | putVM vm' =>
            have hsome := hok.2
            rw [hnone'] at hsome
            simp at hsome
        | _ => exact hok.elim
  refine ⟨hsound, ⟨_, location, hfirst, hop⟩, fun i t hi hget => hs.starts i t hi (hother hi hget), ?_, ?_, ?_, ?_, ?_⟩
  · obtain ⟨a, -, ha, haname, -⟩ := hs.placed.shape
    refine named_kept hs.named ha haname ?_ hexec
    rintro xml rfl
    obtain ⟨-, huuid, r', hr', hname, -⟩ := hok
    obtain ⟨state, at_, rfl⟩ := hs.reads.record r' hr'
    exact ⟨hname.trans hspec, fun y hy => hs.reads.uuid y (huuid.symm.trans hy)⟩
  · rw [hnote]
    intro hnone r' hr'
    obtain ⟨hnone', hsame⟩ := hbefore hnone
    exact hs.stored hnone' r' (hsame ▸ hr')
  · rw [hnote]
    intro hnone i t r' hi hget hr'
    exact hs.copies (hbefore hnone).1 i t r' hi (hother hi hget) hr'
  · rw [hnote]
    exact reads_kept hs.reads hok hs.named hs.stored hexec
  · rw [hnote]
    exact hplaced

/-- **One command of a start.** -/
theorem inv_start (hs : Inv vmID u vm s) {i : Nat} (hi : i ≠ 0) {x : Choice}
    (hapart : Apart u s (.step i x)) (h : step d vmID s (.step i x) = some s') : Inv vmID u vm s' := by
  have hsound := Pool.sound_step (moveCall_alone d vmID) hs.sound h
  obtain ⟨t, c, k, r, w', ht, -, hprog, hexec, rfl⟩ := Pool.step_step h
  obtain ⟨t₀, location, ht₀, hop₀⟩ := hs.mover
  have hfirst : (s.threads.set i (t.advance c r (k r)))[0]? = some t₀ := by
    rw [List.getElem?_set_ne hi, ht₀]
  have hnote : note { world := w', threads := s.threads.set i (t.advance c r (k r)) } = s.note := by
    rw [note_eq hfirst, note_eq ht₀]
  have hop := hs.starts i t hi ht
  have hok : MoveCall.startOk vmID (MoveThread.note t) c := by
    have := hs.sound.allowed ht hprog
    rw [hop] at this
    exact this
  have hturn : mayGo u s i x c = true := by
    have := hapart t (Option.mem_def.mpr ht)
    simpa only [apart, hprog] using this
  have hexec' := (World.exec_of_startable hexec).2
  have hplaced : DiskPlaced u vm s.note w' := by
    cases c with
    | net c | file c => exact hok.elim
    | host c =>
        obtain ⟨p, -, heq⟩ := Option.map_eq_some_iff.mp hexec'
        rw [Prod.mk.injEq] at heq
        rw [← heq.2]
        exact hs.placed.same rfl rfl
    | store c =>
        obtain ⟨t, -, rfl⟩ := World.exec_store hexec'
        exact hs.placed.same rfl rfl
    | virt c =>
        cases c with
        | create dom =>
            refine hs.placed.start (fun hx hdom => ?_) hexec
            simpa [mayGo, hx, hdom] using hturn
        | lookupDomainByName name =>
            obtain ⟨t, ht, rfl⟩ := World.exec_virt hexec'
            rw [(VirtState.exec_lookup ht).1]
            exact hs.placed.same rfl rfl
        | _ => exact hok.elim
  have hstored : s.note.record = none → ∀ r, w'.store.vms.get? vmID = some r → Restated vm r := by
    intro hnone r' hr'
    by_cases hc : c.OffStore
    · rw [World.exec_offStore hc hexec'] at hr'
      exact hs.stored hnone r' hr'
    cases c with
    | virt c | net c | file c | host c => exact absurd trivial hc
    | store c =>
        obtain ⟨t', ht', rfl⟩ := World.exec_store hexec'
        cases c with
        | getVM i =>
            rw [(StoreState.exec_getVM ht').1] at hr'
            exact hs.stored hnone r' hr'
        | putVM vm' =>
            obtain ⟨q, hq, hrest⟩ := hok
            rcases StoreState.exec_putVM ht' with ⟨-, -, rfl⟩ | ⟨e, -, rfl⟩
            · rcases Bucket.mem_put hr' with ⟨-, rfl⟩ | ⟨-, hold⟩
              · exact (hs.copies hnone i t q hi ht hq).trans hrest
              · exact hs.stored hnone r' hold
            · exact hs.stored hnone r' hr'
        | _ => exact hok.elim
  refine ⟨hsound, ⟨t₀, location, hfirst, hop₀⟩, fun j v hj hget => ?_, ?_, ?_, ?_, ?_, ?_⟩
  · rcases Pool.getElem?_advance ht hget with ⟨-, rfl⟩ | ⟨-, hold⟩
    · exact hop
    · exact hs.starts j v hj hold
  · obtain ⟨a, -, ha, haname, -⟩ := hs.placed.shape
    refine named_kept hs.named ha haname ?_ hexec'
    rintro xml rfl
    exact hok.elim
  · rw [hnote]
    exact hstored
  · rw [hnote]
    intro hnone j v r' hj hget hr'
    rcases Pool.getElem?_advance ht hget with ⟨-, rfl⟩ | ⟨-, hold⟩
    · by_cases hread : ∃ i, c = .store (.getVM i)
      · obtain ⟨vmID', rfl⟩ := hread
        obtain ⟨t', ht', rfl⟩ := World.exec_store hexec'
        obtain rfl : vmID' = vmID := hok
        cases r with
        | error e => exact hs.copies hnone i t r' hi ht hr'
        | ok r =>
            obtain rfl : r = r' := Option.some.inj hr'
            exact hs.stored hnone _ ((StoreState.exec_getVM ht').2 _ rfl)
      · have hsame := MoveNote.record_add (v := MoveThread.note t) r fun i hc => hread ⟨i, hc⟩
        exact hs.copies hnone i t r' hi ht (hsame.symm.trans hr')
    · exact hs.copies hnone j v r' hj hold hr'
  · rw [hnote]
    exact hs.reads
  · rw [hnote]
    exact hplaced

theorem inv_step (hspec : vm.spec.name = vm.name) (s : MoveSys) (l : MoveLabel) (s' : MoveSys)
    (hs : Inv vmID u vm s) (hapart : Apart u s l) (h : step d vmID s l = some s') : Inv vmID u vm s' := by
  cases l with
  | start => exact inv_call hs h
  | step i x =>
      by_cases hi : i = 0
      · subst hi
        exact inv_move hspec hs hapart h
      · exact inv_start hs hi hapart h

theorem runsOn_kept {w w' : World} {x : Choice} {c : Cmd} {r : c.Resp} {p : HostPath}
    (hrun : w.runsOn u = some p) (hc : ∀ y : VirtCmd, c = .virt y → y.Shapes u → y = .create u)
    (hexec : World.exec c x w = some (r, w')) : w'.runsOn u = some p := by
  cases c with
  | store c =>
      obtain ⟨t, -, rfl⟩ := World.exec_store hexec
      exact hrun
  | net c | file c | host c =>
      obtain ⟨q, -, heq⟩ := Option.map_eq_some_iff.mp hexec
      rw [Prod.mk.injEq] at heq
      rw [← heq.2]
      exact hrun
  | virt c =>
      obtain ⟨t, ht, rfl⟩ := World.exec_virt hexec
      obtain ⟨a, xml, ha, hstate, -⟩ := World.runsOn_eq_some.mp hrun
      by_cases hshapes : c.Shapes u
      · obtain rfl := hc c rfl hshapes
        rcases VirtState.exec_move ht with ⟨-, rfl⟩ | ⟨b, hb, -, -, hoff, -⟩
        · exact hrun
        · obtain rfl := Option.some.inj (ha.symm.trans hb)
          simp [hstate] at hoff
      · have hsame := VirtState.shape_exec hshapes (by rw [ha]; rfl) ht
        rw [World.runsOn] at hrun ⊢
        rwa [hsame]

/-- A domain that runs keeps running where it does. -/
theorem runsOn_step {p : HostPath} (hs : Inv vmID u vm s) (hrun : s.world.runsOn u = some p) {l : MoveLabel}
    (h : step d vmID s l = some s') : s'.world.runsOn u = some p := by
  cases l with
  | start =>
      obtain rfl : s.add .start (Manager.start vmID) = s' := Option.some.inj h
      exact hrun
  | step i x =>
      obtain ⟨t, c, k, r, w', ht, -, hprog, hexec, rfl⟩ := Pool.step_step h
      refine runsOn_kept hrun ?_ (World.exec_of_startable hexec).2
      rintro y rfl hshapes
      have hok := hs.sound.allowed ht hprog
      by_cases hi : i = 0
      · subst hi
        obtain ⟨t₀, location, ht₀, hop⟩ := hs.mover
        obtain rfl : t₀ = t := Option.some.inj (ht₀.symm.trans ht)
        rw [hop] at hok
        cases y with
        | domainDefineXML xml =>
            have hexposed := (hs.placed.running hrun).2.2
            rw [note_eq ht] at hexposed
            rcases hok.1 with hstage | hstage
            · have hstage : (MoveThread.note t₀).stage = .checked := hstage
              simp [MoveNote.exposed, hstage] at hexposed
            · have hstage : (MoveThread.note t₀).stage = .failing := hstage
              simp [MoveNote.exposed, hstage] at hexposed
        | lookupDomainByName | getState | getUUIDString | listSnapshots | snapshotXML | redefineSnapshot =>
            exact hshapes.elim
        | _ => exact hok.elim
      · rw [hs.starts i t hi ht] at hok
        cases y with
        | create dom => rw [show dom = u from hshapes]
        | lookupDomainByName => exact hshapes.elim
        | _ => exact hok.elim

/-- **A running VM's disk stays.**  In a run whose steps all meet the condition, a domain that runs
has its disk where its definition says, and no later step removes it. -/
theorem disk_stays (d : Daemon) (vmID location : String) (u : Nat) (vm : VM) (w : World)
    (hw : Stopped vmID u vm w) (ls ms : List MoveLabel)
    (happart : Run.Guarded (step d vmID) (Apart u) (init d vmID location w) (ls ++ ms)) (s t : MoveSys)
    (hs : Run.exec (step d vmID) (init d vmID location w) ls = some s)
    (ht : Run.exec (step d vmID) s ms = some t) (p : HostPath) (hrun : s.world.runsOn u = some p) :
    t.world.file.has p = true := by
  obtain ⟨hbefore, hafter⟩ := Run.guarded_append happart hs
  have hinv := Run.exec_invariant (Inv vmID u vm) (inv_step hw.spec) ls _ s (inv_init hw) hbefore hs
  have hkept := Run.exec_invariant (fun s => Inv vmID u vm s ∧ s.world.runsOn u = some p)
    (fun s l s' hs hapart h => ⟨inv_step hw.spec s l s' hs.1 hapart h, runsOn_step hs.1 hs.2 h⟩)
    ms s t ⟨hinv, hrun⟩ hafter ht
  exact (hkept.1.placed.running hkept.2).1

/-! ### A copy, with a start beside it -/

/-- The plain daemon with a second location on another disk. -/
def twoLocations : Daemon :=
  { Daemon.plain with
    cfg := { Daemon.plain.cfg with
      storage := { Daemon.plain.cfg.storage with diskLocations := [⟨"fast", ["mnt", "fast"]⟩] } } }

/-- The stopped VM, and the directory of the second location. -/
def webStopped : World :=
  { World.single webVM .shutoff with
    file := { files := (webVM.diskPath.inits ++ [["mnt"], ["mnt", "fast"]]).map (·, 0) } }

theorem webStopped_stopped : Stopped "vm-1" 1 webVM webStopped where
  stored := by decide +kernel
  shape := by
    have h : ((webStopped.virt.shape 1).any fun a => a.name = "web" && a.state = .shutoff &&
        a.definition.any fun xml => xml.diskPath = webVM.diskPath) = true := by decide +kernel
    obtain ⟨⟨name, state, definition⟩, ha, h⟩ := (Option.any_eq_true _ _).mp h
    simp only [Bool.and_eq_true, decide_eq_true_eq, Option.any_eq_true] at h
    obtain ⟨⟨rfl, rfl⟩, xml, rfl, hdisk⟩ := h
    exact ⟨xml, ha, hdisk⟩
  named := by decide +kernel
  spec := rfl
  there := by
    intro q hq
    have hmem : q ∈ webVM.diskPath.inits := List.mem_inits _ _ |>.mpr (HostPath.within_iff.mp hq)
    exact FileState.has_iff.mpr ⟨0, List.mem_map.mpr ⟨q, List.mem_append_left _ hmem, rfl⟩⟩

def webMove (ls : List MoveLabel) : Option MoveSys :=
  Run.exec (step twoLocations "vm-1") (init twoLocations "vm-1" "fast" webStopped) ls

/-- So many commands of the move. -/
def moves (n : Nat) : List MoveLabel := List.replicate n (.step 0 {})

/-- A start, as far as the domain runs. -/
def startsNow : List MoveLabel := [.start, .step 1 {}, .step 1 {}, .step 1 {}]

/-- The VM is started as soon as its domain is defined over the new directory. -/
theorem disk_stays_after : ∃ s t, webMove (moves 13 ++ startsNow) = some s ∧
    Run.exec (step twoLocations "vm-1") s (moves 3) = some t ∧
    s.world.runsOn 1 = some ["mnt", "fast", "vm-1", "disk.qcow2"] ∧
    t.world.file.has ["mnt", "fast", "vm-1", "disk.qcow2"] = true := by
  have hguard : Run.Guarded (step twoLocations "vm-1") (Apart 1)
      (init twoLocations "vm-1" "fast" webStopped) ((moves 13 ++ startsNow) ++ moves 3) := by decide +kernel
  have hrun : (webMove (moves 13 ++ startsNow)).any (fun s =>
      s.world.runsOn 1 = some ["mnt", "fast", "vm-1", "disk.qcow2"] &&
        (Run.exec (step twoLocations "vm-1") s (moves 3)).isSome) = true := by decide +kernel
  obtain ⟨s, hs, h⟩ := (Option.any_eq_true _ _).mp hrun
  simp only [Bool.and_eq_true, decide_eq_true_eq] at h
  obtain ⟨t, ht⟩ := Option.isSome_iff_exists.mp h.2
  exact ⟨s, t, hs, ht, h.1, disk_stays twoLocations "vm-1" "fast" 1 webVM webStopped webStopped_stopped
    _ _ hguard s t hs ht _ h.1⟩

/-- The VM is started between the second look and the new definition, on the disk that the move
removes at its end. -/
theorem disk_removed : ∃ s t, webMove (moves 10 ++ startsNow) = some s ∧
    Run.exec (step twoLocations "vm-1") s (moves 6) = some t ∧
    s.world.runsOn 1 = some webVM.diskPath ∧ t.world.file.has webVM.diskPath = false := by
  have hrun : (webMove (moves 10 ++ startsNow)).any (fun s => s.world.runsOn 1 = some webVM.diskPath &&
      (Run.exec (step twoLocations "vm-1") s (moves 6)).any fun t =>
        !t.world.file.has webVM.diskPath) = true := by decide +kernel
  obtain ⟨s, hs, h⟩ := (Option.any_eq_true _ _).mp hrun
  simp only [Bool.and_eq_true, decide_eq_true_eq] at h
  obtain ⟨t, ht, hgone⟩ := (Option.any_eq_true _ _).mp h.2
  exact ⟨s, t, hs, ht, h.1, by simpa using hgone⟩

end MoveSys

end VMSmith
