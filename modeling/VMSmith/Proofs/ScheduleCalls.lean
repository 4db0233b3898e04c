/-
What a fire and a request about a schedule do, whatever they are answered.

A request writes or deletes one record, the one it has read, and then tells the engine
about it.  A fire takes a slot of the channel it has looked up and always gives it back.
-/
import VMSmith.Scheduler.ScheduleSys

namespace VMSmith

open Prog
open Go (trimSpace)

namespace ScheduleOp

/-- Which commands a call may issue, after what it has been answered. -/
def ok (lib : CronLib) (op : ScheduleOp) (v : ScheduleView) : SchedCmd → Prop
  | .putSchedule s (.patch req) => op = .update op.target req ∧ v.unsettled = none ∧
      (∃ old, v.read = some (op.target, old) ∧ s.id = old.id) ∧
      ((req.cronSpec = none ∧ req.timezone = none) ∨
        lib.validateSpec s.cronSpec s.timezone = .ok ())
  | .deleteSchedule id => op = .delete id ∧ v.unsettled = none
  | .register s => v.unsettled = some s.id
  | .unregister id => v.unsettled = some id ∧ v.dropped = true ∧ op = .delete id
  | .semaphore id => id = op.target ∧ v.looked = none ∧ v.held = none
  | .acquire id sem => id = op.target ∧ v.looked = some sem ∧ v.held = none
  | .release sem => v.looked = some sem ∧ v.held.isSome
  | _ => True

/-- How a call ends. -/
def post (op : ScheduleOp) (res : Except Err Unit) (v : ScheduleView) : Prop :=
  v.unsettled = none ∧ v.held = none ∧
    (∀ id req, op = .update id req → res = .ok () → v.wrote = true) ∧
    ∀ id, op = .delete id → res = .ok () → v.dropped = true

end ScheduleOp

/-- A call by its account. -/
abbrev scheduleSem (lib : CronLib) (op : ScheduleOp) : Sem SchedCmd SchedCmd.Resp ScheduleView :=
  Sem.account ScheduleView.add (op.ok lib)

/-- The commands that leave the account as it is. -/
def SchedCmd.Plain : SchedCmd → Prop
  | .appendRun _ _ | .vmExists _ | .listVMs | .act _ _ _ | .now | .publish _ => True
  | _ => False

section Rules

variable {lib : CronLib} {op : ScheduleOp} {α β : Type} {v : ScheduleView}

theorem wp_plain {p : SchedM α} (hp : Returns SchedCmd.Plain p)
    {Q : Except Err α → ScheduleView → Prop} (hQ : ∀ a, Q (.ok a) v) :
    wp (scheduleSem lib op) p Q v := by
  refine wp_of_returns (fun v' => v' = v) ?_ ?_ hp rfl fun a v' hv' => hv' ▸ hQ a
  · intro v' c _ hc
    cases c <;> first | exact trivial | exact hc.elim
  · rintro v' c r _ rfl hc rfl
    cases c <;> first | rfl | exact hc.elim

theorem wp_plain_bind {p : SchedM α} (hp : Returns SchedCmd.Plain p) {f : α → SchedM β}
    {Q : Except Err β → ScheduleView → Prop} (hf : ∀ a, wp (scheduleSem lib op) (f a) Q v) :
    wp (scheduleSem lib op) (p >>= f) Q v := by
  rw [bind_eq, wp_bind]
  exact wp_plain hp hf

end Rules

/-! ### The parts of a fire -/

theorem plain_sched {c : SchedCmd} (h : c.Plain) : Returns SchedCmd.Plain (sched c) :=
  returns_perform h

theorem plain_now : Returns SchedCmd.Plain engineNow := plain_sched (by exact trivial)

theorem plain_recordRun (run : ScheduleRun) : Returns SchedCmd.Plain (recordRun run) :=
  plain_now.bind fun _ => (plain_sched (by exact trivial)).bind fun _ => .ret ()

theorem plain_emit (evt : Nat → Event) : Returns SchedCmd.Plain (emit evt) :=
  plain_now.bind fun _ => plain_sched (by exact trivial)

theorem plain_recordSkip (scheduleID vmID : String) (reason : ScheduleRunSkipReason)
    (evt : Nat → Event) : Returns SchedCmd.Plain (recordSkip scheduleID vmID reason evt) :=
  plain_now.bind fun _ => (plain_recordRun _).bind fun _ => plain_emit evt

theorem plain_resolveTargets (s : Schedule) : Returns SchedCmd.Plain (resolveTargets s) := by
  unfold resolveTargets
  by_cases hvm : trimSpace s.vmID ≠ ""
  · rw [if_pos hvm]
    refine (plain_sched (by exact trivial)).bind fun found => ?_
    cases (found : Bool) <;> exact .ret _
  · rw [if_neg hvm]
    refine (plain_sched (by exact trivial)).bind fun all => ?_
    match all with
    | .error _ => exact .ret _
    | .ok _ => exact .ret _

/-- By induction on the attempts left. -/
theorem plain_runAttempts (s : Schedule) (vmID : String) (scheduledTime : Nat) (actor : String)
    (left attempt : Nat) (run : ScheduleRun) :
    Returns SchedCmd.Plain (runAttempts s vmID scheduledTime actor left attempt run) := by
  induction left generalizing attempt run with
  | zero =>
      unfold runAttempts
      refine (plain_sched (by exact trivial)).bind fun result => ?_
      match result with
      | .done => exact (plain_recordRun _).bind fun _ => (plain_emit _).bind fun _ => .ret _
      | .skipped _ => exact (plain_recordRun _).bind fun _ => (plain_emit _).bind fun _ => .ret _
      | .failed _ => exact (plain_recordRun _).bind fun _ => (plain_emit _).bind fun _ => .ret _
  | succ left ih =>
      unfold runAttempts
      refine (plain_sched (by exact trivial)).bind fun result => ?_
      match result with
      | .done => exact (plain_recordRun _).bind fun _ => (plain_emit _).bind fun _ => .ret _
      | .skipped _ => exact (plain_recordRun _).bind fun _ => (plain_emit _).bind fun _ => .ret _
      | .failed _ => exact ih _ _

theorem plain_runTargets (cfg : EngineConfig) (s : Schedule) (scheduledTime : Nat) (actor : String)
    (targets : List String) : Returns SchedCmd.Plain (runTargets cfg s scheduledTime actor targets) := by
  induction targets with
  | nil => exact .ret _
  | cons vmID targets ih =>
      refine Returns.bind ?_ fun _ => ih.bind fun _ => .ret _
      exact plain_now.bind fun _ => plain_runAttempts _ _ _ _ _ _ _

theorem plain_nextFireTime (lib : CronLib) (cronSpec timezone : String) :
    Returns SchedCmd.Plain (nextFireTime lib cronSpec timezone) := by
  unfold nextFireTime
  split
  · exact plain_now.bind fun _ => .ret _
  · exact .ret _

/-- The same account, but for the record read. -/
def ScheduleView.Reread (v v' : ScheduleView) : Prop := ∃ read, v' = { v with read := read }

variable {lib : CronLib} {op : ScheduleOp} {v : ScheduleView}

theorem wp_finalize (s : Schedule) (scheduledTime : Nat) (result : String) :
    wp (scheduleSem lib op) (finalize lib s scheduledTime result)
      (fun r v' => r = .ok () ∧ v.Reread v') v := by
  unfold finalize
  refine wp_account_call.mpr ⟨trivial, ?_⟩
  rintro (e | current)
  · exact (wp_ret _ _ _).mpr ⟨rfl, _, rfl⟩
  · rw [ret_bind]
    dsimp only
    refine wp_plain_bind (plain_nextFireTime lib current.cronSpec current.timezone) fun next => ?_
    refine wp_account_call.mpr ⟨trivial, ?_⟩
    rintro (e | u)
    · exact (wp_ret _ _ _).mpr ⟨rfl, some (_, current), rfl⟩
    · exact (wp_ret _ _ _).mpr ⟨rfl, some (_, current), rfl⟩

theorem wp_fireInSlot (cfg : EngineConfig) (s : Schedule) (scheduledTime : Nat) (actor : String) :
    wp (scheduleSem lib op) (fireInSlot lib cfg s scheduledTime actor)
      (fun r v' => r = .ok () ∧ v.Reread v') v := by
  unfold fireInSlot
  refine wp_plain_bind (plain_emit _) fun _ => wp_plain_bind (plain_resolveTargets s) fun targets => ?_
  match targets with
  | none => exact wp_plain_bind (plain_recordSkip _ _ _ _) fun _ => wp_finalize _ _ _
  | some targets => exact wp_plain_bind (plain_runTargets _ _ _ _ _) fun _ => wp_finalize _ _ _

/-- Nothing looked up, held, or left to be told. -/
structure ScheduleView.Idle (v : ScheduleView) : Prop where
  unsettled : v.unsettled = none
  looked : v.looked = none
  held : v.held = none

theorem wp_fire (cfg : EngineConfig) (scheduledTime : Nat) (actor : String) (hv : v.Idle) :
    wp (scheduleSem lib op) (fire lib cfg op.target scheduledTime actor) (fun _ v' => v'.Idle) v := by
  unfold fire
  refine wp_account_call.mpr ⟨trivial, ?_⟩
  rintro (e | s)
  · exact (wp_ret _ _ _).mpr ⟨hv.unsettled, hv.looked, hv.held⟩
  refine wp_account_call.mpr ⟨⟨rfl, hv.looked, hv.held⟩, fun sem => ?_⟩
  refine wp_account_call.mpr ⟨⟨rfl, rfl, hv.held⟩, ?_⟩
  rintro (_ | a)
  · exact wp_plain (plain_recordSkip _ _ _ _) fun _ => ⟨hv.unsettled, rfl, hv.held⟩
  · show wp _ (fireInSlot lib cfg s scheduledTime actor >>= fun _ => sched (.release sem)) _ _
    rw [bind_eq, wp_bind]
    refine wp_mono (fun r v' hr => ?_) (wp_fireInSlot cfg s scheduledTime actor)
    obtain ⟨rfl, read, rfl⟩ := hr
    refine wp_account_call.mpr ⟨⟨rfl, rfl⟩, fun _ => ?_⟩
    exact (wp_ret _ _ _).mpr ⟨hv.unsettled, rfl, rfl⟩

/-! ### Requests -/

theorem plain_nextFireAt (settings : ScheduleSettings) :
    Returns SchedCmd.Plain (Api.nextFireAt lib settings) := by
  unfold Api.nextFireAt
  split
  · exact plain_nextFireTime _ _ _
  · exact .ret _

theorem wp_updateSchedule {id : String} {req : ScheduleUpdateSpec} (hop : op = .update id req)
    (hv : v.Idle) : wp (scheduleSem lib op) (Api.updateSchedule lib id req)
      (fun r v' => v'.Idle ∧ ∀ s, r = .ok s → v'.wrote = true) v := by
  subst hop
  unfold Api.updateSchedule
  have hfail : ∀ {e : Err} {v' : ScheduleView}, v'.Idle →
      wp (scheduleSem lib (.update id req)) (.throw e : SchedM Schedule)
        (fun r v' => v'.Idle ∧ ∀ s, r = .ok s → v'.wrote = true) v' :=
    fun h => (wp_throw _ _ _).mpr ⟨h, fun s hs => by simp at hs⟩
  refine wp_account_call.mpr ⟨trivial, ?_⟩
  rintro (e | current)
  · exact hfail ⟨hv.unsettled, hv.looked, hv.held⟩
  have hv' : ScheduleView.Idle { v with read := some (id, current) } := ⟨hv.unsettled, hv.looked, hv.held⟩
  show wp _ (Prog.ofExcept (Api.patchSchedule lib current.settings req) >>= _) _ _
  cases hpatch : Api.patchSchedule lib current.settings req with
  | error e => exact hfail hv'
  | ok settings =>
      obtain ⟨-, hvalid⟩ := Api.patchSchedule_ok lib hpatch
      refine wp_plain_bind plain_now fun updatedAt => ?_
      refine wp_plain_bind (plain_nextFireAt settings) fun next => ?_
      refine wp_account_call.mpr ⟨⟨rfl, hv.unsettled, ⟨current, rfl, rfl⟩, hvalid⟩, ?_⟩
      rintro (e | u)
      · exact hfail hv'
      · refine wp_account_call.mpr ⟨rfl, fun _ => ?_⟩
        refine wp_plain_bind (plain_emit _) fun _ => ?_
        exact (wp_ret _ _ _).mpr ⟨⟨rfl, hv.looked, hv.held⟩, fun _ _ => rfl⟩

theorem wp_deleteSchedule {id : String} (hop : op = .delete id) (hv : v.Idle) :
    wp (scheduleSem lib op) (Api.deleteSchedule id)
      (fun r v' => v'.Idle ∧ (r = .ok () → v'.dropped = true)) v := by
  subst hop
  unfold Api.deleteSchedule
  refine wp_account_call.mpr ⟨trivial, ?_⟩
  rintro (e | s)
  · exact (wp_throw _ _ _).mpr ⟨⟨hv.unsettled, hv.looked, hv.held⟩, fun h => by simp at h⟩
  refine wp_account_call.mpr ⟨⟨rfl, hv.unsettled⟩, ?_⟩
  rintro (e | u)
  · exact (wp_throw _ _ _).mpr ⟨⟨hv.unsettled, hv.looked, hv.held⟩, fun h => by simp at h⟩
  · refine wp_account_call.mpr ⟨⟨rfl, rfl, rfl⟩, fun _ => ?_⟩
    exact wp_plain (plain_emit _) fun _ => ⟨⟨rfl, hv.looked, hv.held⟩, fun _ => rfl⟩

/-- **Every call is in order**, whatever it is answered. -/
theorem scheduleOp_wp (cfg : EngineConfig) (op : ScheduleOp) :
    wp (scheduleSem lib op) (op.body lib cfg) op.post {} := by
  have hidle : ScheduleView.Idle {} := ⟨rfl, rfl, rfl⟩
  have hfired : op.isRequest = false → ∀ (r : Except Err Unit) (v : ScheduleView), v.Idle →
      op.post r v := by
    intro hop r v hv
    refine ⟨hv.unsettled, hv.held, ?_, ?_⟩
    · rintro id req rfl
      simp [ScheduleOp.isRequest] at hop
    · rintro id rfl
      simp [ScheduleOp.isRequest] at hop
  cases op with
  | fire id scheduledTime actor =>
      refine wp_mono (fun r v hv => hfired rfl r v hv) ?_
      exact @wp_fire lib (.fire id scheduledTime actor) _ cfg scheduledTime actor hidle
  | runNow id actor =>
      refine wp_account_call.mpr ⟨trivial, ?_⟩
      rintro (e | s)
      · exact (wp_throw _ _ _).mpr (hfired rfl _ _ ⟨rfl, rfl, rfl⟩)
      · refine wp_plain_bind plain_now fun now => wp_mono (fun r v hv => hfired rfl r v hv) ?_
        exact @wp_fire lib (.runNow id actor) _ cfg now _ ⟨rfl, rfl, rfl⟩
  | queueFull id => exact wp_plain (plain_recordSkip _ _ _ _) fun _ => hfired rfl _ _ hidle
  | update id req =>
      refine wp_bind.mpr (wp_mono (fun r v hr => ?_) (wp_updateSchedule rfl hidle))
      cases r with
      | error e => exact ⟨hr.1.unsettled, hr.1.held, fun _ _ _ h => by simp at h, fun _ h => by simp at h⟩
      | ok s =>
          refine (wp_ret _ _ _).mpr ⟨hr.1.unsettled, hr.1.held, ?_, fun _ h => by simp at h⟩
          exact fun _ _ _ _ => hr.2 s rfl
  | delete id =>
      refine wp_mono (fun r v hr => ?_) (wp_deleteSchedule rfl hidle)
      exact ⟨hr.1.unsettled, hr.1.held, fun _ _ h => by simp at h, fun _ _ hok => hr.2 hok⟩

/-- A call alone, by its log. -/
theorem scheduleOp_alone (cfg : EngineConfig) (op : ScheduleOp) :
    wp (Sem.alone fun log c => op.ok lib (ScheduleLog.view log) c) (op.body lib cfg)
      (fun res log => op.post res (ScheduleLog.view log)) [] :=
  wp_alone_of_account (scheduleOp_wp cfg op)

namespace SchedSys

/-! ### A scheduler to run -/

/-- A library that knows every spec and every time zone. -/
def plainLib : CronLib where
  parseError _ := none
  loadLocation name := some name
  next _ _ t := t + 60

def nightly : Schedule where
  id := "sched-1"
  name := "nightly"
  vmID := "vm-1"
  action := .snapshot
  cronSpec := "0 30 2 * * *"

/-- A store with one schedule. -/
def oneStored : StoredSchedules plainLib where
  schedules := Bucket.empty.put "sched-1" nightly
  keyed := by
    intro id s hs
    rcases Bucket.mem_put hs with ⟨rfl, rfl⟩ | ⟨-, hold⟩
    · rfl
    · simp at hold
  valid := by
    intro id s hs
    rcases Bucket.mem_put hs with ⟨rfl, rfl⟩ | ⟨-, hold⟩
    · rfl
    · simp at hold

/-- `n` answers to call `i`. -/
def answers (i n : Nat) : List SchedLabel := List.replicate n (.step i { flag := true, nat := 7 })

end SchedSys

end VMSmith
