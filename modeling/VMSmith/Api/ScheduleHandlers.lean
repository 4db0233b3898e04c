/-
The request handlers that change and delete schedules.

An update reads the record, lays the patch's fields over it, and writes the whole record
back; the engine is told afterwards.
-/
import VMSmith.Scheduler.Engine
import VMSmith.Api.Validation

namespace VMSmith.Api

open Go (trimSpace)

variable (lib : CronLib)

def maxScheduleNameLen : Nat := 128

def checkScheduleName (name : String) : Except Err String :=
  let name := trimSpace name
  if name = "" ∨ maxScheduleNameLen < name.utf8ByteSize then
    .error (.api "invalid_name" "name must be 1-128 characters")
  else .ok name

def checkScheduleAction (word : String) : Except Err ScheduleAction :=
  match ScheduleAction.ofText word with
  | some action => .ok action
  | none => .error (.api "invalid_action" ("action must be one of: " ++
      "snapshot, start, stop, restart, force-stop, reboot, suspend, resume"))

def checkCatchUpPolicy (word : String) : Except Err ScheduleCatchUpPolicy :=
  match ScheduleCatchUpPolicy.ofText word with
  | some policy => .ok policy
  | none => .error (.api "invalid_catch_up_policy"
      "catch_up_policy must be one of: skip, run_once, run_all")

def checkNonNegative (field : String) (n : Int) : Except Err Int :=
  if n < 0 then .error (.api "invalid_request_body" (field ++ " must be non-negative")) else .ok n

/-- The settings `UpdateSchedule` writes, once the request is decoded. -/
def patchSchedule (current : ScheduleSettings) (req : ScheduleUpdateSpec) :
    Except Err ScheduleSettings := do
  rejectIf (req = {}) (.api "noop_update" "no fields to update")
  let name ← patchField req.name checkScheduleName current.name
  let action ← patchField req.action checkScheduleAction current.action
  let policy ← patchField req.catchUpPolicy checkCatchUpPolicy current.catchUpPolicy
  let vmID := (req.vmID.map trimSpace).getD current.vmID
  let tagSelector := (req.tagSelector.map normalizeScheduleTags).getD current.tagSelector
  rejectIf (vmID ≠ "" ∧ tagSelector ≠ [])
    (.api "invalid_target" "vm_id and tag_selector are mutually exclusive")
  let cronSpec := (req.cronSpec.map trimSpace).getD current.cronSpec
  let timezone := (req.timezone.map trimSpace).getD current.timezone
  (if req.cronSpec.isSome ∨ req.timezone.isSome then lib.validateSpec cronSpec timezone
    else .ok ())
  let maxConcurrent ← patchField req.maxConcurrent (checkNonNegative "max_concurrent")
    current.maxConcurrent
  let retentionCount ← patchField req.retentionCount (checkNonNegative "retention_count")
    current.retentionCount
  return {
    name := name, vmID := vmID, tagSelector := tagSelector, action := action, cronSpec := cronSpec
    timezone := timezone, enabled := req.enabled.getD current.enabled, catchUpPolicy := policy
    maxConcurrent := maxConcurrent, retentionCount := retentionCount
    params := req.params.getD current.params }

/-- When a schedule with these settings is next due. -/
def nextFireAt (settings : ScheduleSettings) : SchedM (Option Nat) :=
  if settings.enabled then nextFireTime lib settings.cronSpec settings.timezone else .ret none

/-- `UpdateSchedule`. -/
def updateSchedule (id : String) (req : ScheduleUpdateSpec) : SchedM Schedule := do
  match ← sched (.getSchedule id) with
  | .error _ => .throw (.api "resource_not_found" "schedule not found")
  | .ok current =>
      let settings ← Prog.ofExcept (patchSchedule lib current.settings req)
      let updatedAt ← engineNow
      let next ← nextFireAt lib settings
      let updated : Schedule := { current with
        toScheduleSettings := settings, updatedAt := updatedAt, nextFireAt := next }
      match ← sched (.putSchedule updated (.patch req)) with
      | .error _ => .throw (.api "internal_error" "failed to persist schedule")
      | .ok () =>
          sched (.register updated)
          emit <| appEvent "schedule.updated" updated.vmID ""
            ("schedule \"" ++ updated.name ++ "\" updated") [("schedule_id", updated.id)]
          return updated

/-- `DeleteSchedule`. -/
def deleteSchedule (id : String) : SchedM Unit := do
  match ← sched (.getSchedule id) with
  | .error _ => .throw (.api "resource_not_found" "schedule not found")
  | .ok s =>
      match ← sched (.deleteSchedule id) with
      | .error _ => .throw (.api "internal_error" "failed to delete schedule")
      | .ok () =>
          sched (.unregister id)
          emit <| appEvent "schedule.deleted" s.vmID ""
            ("schedule \"" ++ s.name ++ "\" deleted") [("schedule_id", id)]

/-! ### What a patch does -/

theorem checkScheduleName_ok {name new : String} (h : checkScheduleName name = .ok new) :
    some (trimSpace name) = some new := by
  unfold checkScheduleName at h
  dsimp only at h
  split_ifs at h
  rw [Except.ok.inj h]

theorem checkScheduleAction_ok {word : String} {action : ScheduleAction}
    (h : checkScheduleAction word = .ok action) : ScheduleAction.ofText word = some action := by
  unfold checkScheduleAction at h
  split at h
  · next hword => rw [hword, Except.ok.inj h]
  · simp at h

theorem checkCatchUpPolicy_ok {word : String} {policy : ScheduleCatchUpPolicy}
    (h : checkCatchUpPolicy word = .ok policy) : ScheduleCatchUpPolicy.ofText word = some policy := by
  unfold checkCatchUpPolicy at h
  split at h
  · next hword => rw [hword, Except.ok.inj h]
  · simp at h

theorem checkNonNegative_ok {field : String} {n m : Int} (h : checkNonNegative field n = .ok m) :
    some n = some m := by
  unfold checkNonNegative at h
  split_ifs at h
  rw [Except.ok.inj h]

/-- What `UpdateSchedule` writes are the old settings with the patch's fields in their
places; a new spec or time zone is a valid one. -/
theorem patchSchedule_ok {current settings : ScheduleSettings} {req : ScheduleUpdateSpec}
    (h : patchSchedule lib current req = .ok settings) :
    settings = req.apply current ∧ ((req.cronSpec = none ∧ req.timezone = none) ∨
      lib.validateSpec settings.cronSpec settings.timezone = .ok ()) := by
  unfold patchSchedule at h
  obtain ⟨_, -, h⟩ := bind_ok h
  obtain ⟨name, hname, h⟩ := bind_ok h
  obtain ⟨action, haction, h⟩ := bind_ok h
  obtain ⟨policy, hpolicy, h⟩ := bind_ok h
  obtain ⟨_, -, h⟩ := bind_ok h
  obtain ⟨_, hspec, h⟩ := bind_ok h
  obtain ⟨maxConcurrent, hmax, h⟩ := bind_ok h
  obtain ⟨retentionCount, hretention, h⟩ := bind_ok h
  have hname := patchField_ok (fun _ _ => checkScheduleName_ok) hname
  have haction := patchField_ok (fun _ _ => checkScheduleAction_ok) haction
  have hpolicy := patchField_ok (fun _ _ => checkCatchUpPolicy_ok) hpolicy
  have hmax := patchField_ok (fun _ _ => checkNonNegative_ok) hmax
  have hretention := patchField_ok (fun _ _ => checkNonNegative_ok) hretention
  rw [← Except.ok.inj h]
  constructor
  · have hmap : (req.name.bind fun n => some (trimSpace n)) = req.name.map trimSpace :=
      Option.map_eq_bind.symm
    rw [hname, haction, hpolicy, hmax, hretention, Option.bind_fun_some, Option.bind_fun_some, hmap]
    rfl
  · split_ifs at hspec with hnew
    · exact .inr hspec
    · rw [not_or, Option.not_isSome_iff_eq_none, Option.not_isSome_iff_eq_none] at hnew
      exact .inl hnew

end VMSmith.Api
