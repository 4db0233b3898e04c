/-
A scheduler that is stopped once, and after its workers have looked their channel up.

Up to the first `Stop` there has been one channel and every worker that has looked has it; the
`Stop` takes it along and closes it.  As long as no worker looks while a `Stop` is under way, each
that a `Stop` waits for has that channel.  Nothing is left to start once the engine is down: no
action, no job in a channel that a worker has, no fire to catch up on.
-/
import VMSmith.Scheduler.Lifecycle

namespace VMSmith

namespace EngineWorker

/-- The channel it has looked up. -/
def channel : EngineWorker → Option (Option Nat)
  | ranging jobs | firing jobs _ => some jobs
  | _ => none

/-- The actions it is still to start for the job it fires. -/
def actions : EngineWorker → Nat
  | firing _ n => n
  | _ => 0

end EngineWorker

namespace EngineSys

/-- The channel is closed, or a `Stop` has it and is about to close it.  No `Stop` to come can:
each finds the stop channel closed. -/
def Closable (s : EngineSys) (jobs : Option Nat) : Prop :=
  ∃ c, jobs = some c ∧ (s.closedAt c = some true ∨ .closing (some c) ∈ s.stops)

/-- A `Stop` waits for a worker, and nobody will close the worker's channel. -/
def Stuck (s : EngineSys) : Prop :=
  .waiting ∈ s.stops ∧ ∃ w ∈ s.workers, ∃ jobs, w.channel = some jobs ∧ ¬ s.Closable jobs

structure Safe (s : EngineSys) : Prop where
  running : s.panicked = false
  notStuck : ¬ s.Stuck
  noStrays : s.strays = 0

/-- The jobs that wait in a worker's channel. -/
def waitingJobs (s : EngineSys) (w : EngineWorker) : List Job :=
  match w.channel with
  | some (some c) => ((s.channels[c]?).map JobChannel.queue).getD []
  | _ => []

/-- There is no action left to start. -/
def idle (s : EngineSys) : Bool :=
  s.workers.all (fun w => w.actions = 0 && s.waitingJobs w = []) && s.catchUps.all (· = 0)

/-- The condition on a step: no second `Stop` takes the engine down, and none returns at once while
actions are left to start; no worker looks its channel up while a `Stop` is under way; no `Start`
that is overtaken by a `Stop` spawns a catch-up with something to do. -/
def meets (s : EngineSys) : EngineLabel → Bool
  | .stop => if s.started then !s.stopClosed else s.idle
  | .read _ => s.stops.all (· = .returned)
  | .catchUp _ actions => !s.down || actions = 0
  | _ => true

/-- What holds as long as the condition is met. -/
structure Inv (s : EngineSys) : Prop where
  running : s.panicked = false
  jobs : s.started = s.jobs.isSome
  opened : ∀ c, s.jobs = some c → s.closedAt c = some false
  once : s.stops.length ≤ 1
  unstopped : s.stopClosed = false → s.stops = []
  unstarted : s.stopClosed = false → s.started = false → s.workers = [] ∧ s.starts = []
  first : s.stopClosed = false → ∀ w ∈ s.workers, ∀ jobs, w.channel = some jobs → jobs = s.jobs
  closing : ∀ jobs, .closing jobs ∈ s.stops → (∃ c, jobs = some c ∧ s.closedAt c = some false ∧ s.jobs ≠ some c) ∧
    ∀ w ∈ s.workers, ∀ jobs', w.channel = some jobs' → jobs' = jobs
  waiting : .waiting ∈ s.stops → ∀ w ∈ s.workers, ∀ jobs, w.channel = some jobs →
    ∃ c, jobs = some c ∧ s.closedAt c = some true
  down : s.down = true → s.started = false ∧ s.idle = true
  strays : s.strays = 0

variable {cfg : LifecycleConfig} {s s' : EngineSys}

theorem idle_iff : s.idle = true ↔
    (∀ w ∈ s.workers, w.actions = 0 ∧ s.waitingJobs w = []) ∧ ∀ n ∈ s.catchUps, n = 0 := by
  unfold idle
  simp only [Bool.and_eq_true, List.all_eq_true, decide_eq_true_eq]

theorem inv_init : Inv {} :=
  ⟨rfl, rfl, fun _ h => by simp at h, Nat.zero_le _, fun _ => rfl, fun _ _ => ⟨rfl, rfl⟩, fun _ _ h => by simp at h,
    fun _ h => by simp at h, fun h => by simp at h, fun h => by simp at h, rfl⟩

theorem safe_of_inv (h : s.Inv) : s.Safe := by
  refine ⟨h.running, ?_, h.strays⟩
  rintro ⟨hwaiting, w, hw, jobs, hchannel, hnot⟩
  obtain ⟨c, hc, hclosed⟩ := h.waiting hwaiting w hw jobs hchannel
  exact hnot ⟨c, hc, .inl hclosed⟩

/-! ### Steps of the workers -/

/-- A worker goes on, with its channel or without. -/
theorem inv_setWorker (h : s.Inv) {i : Nat} {w w' : EngineWorker} (hw : s.workers[i]? = some w)
    (hchannel : ∀ jobs, w'.channel = some jobs → w.channel = some jobs)
    (hactions : s.down = true → w'.actions = 0) : (s.setWorker i w').Inv := by
  have hmem : w ∈ s.workers := List.mem_of_getElem? hw
  have hold : ∀ v ∈ s.workers.set i w', ∀ jobs, v.channel = some jobs → ∃ u ∈ s.workers, u.channel = some jobs := by
    intro v hv jobs hjobs
    rcases List.mem_or_eq_of_mem_set hv with hv | rfl
    · exact ⟨v, hv, hjobs⟩
    · exact ⟨w, hmem, hchannel jobs hjobs⟩
  refine ⟨h.running, h.jobs, h.opened, h.once, h.unstopped, fun hopen hstopped => ?_, fun hopen v hv jobs hjobs => ?_,
    fun jobs hstop => ⟨(h.closing jobs hstop).1, fun v hv jobs' hjobs => ?_⟩, fun hstop v hv jobs hjobs => ?_,
    fun hdown => ⟨(h.down hdown).1, ?_⟩, h.strays⟩
  · rw [(h.unstarted hopen hstopped).1] at hmem
    exact absurd hmem List.not_mem_nil
  · obtain ⟨u, hu, hjobs⟩ := hold v hv jobs hjobs
    exact h.first hopen u hu jobs hjobs
  · obtain ⟨u, hu, hjobs⟩ := hold v hv jobs' hjobs
    exact (h.closing jobs hstop).2 u hu jobs' hjobs
  · obtain ⟨u, hu, hjobs⟩ := hold v hv jobs hjobs
    exact h.waiting hstop u hu jobs hjobs
  · obtain ⟨hworkers, hcatchUps⟩ := idle_iff.mp (h.down hdown).2
    refine idle_iff.mpr ⟨fun v hv => ?_, hcatchUps⟩
    rcases List.mem_or_eq_of_mem_set hv with hv | rfl
    · exact hworkers v hv
    · refine ⟨hactions hdown, ?_⟩
      have hempty := (hworkers w hmem).2
      unfold waitingJobs at hempty ⊢
      cases hjobs : v.channel with
      | none => rfl
      | some jobs =>
          rw [hchannel jobs hjobs] at hempty
          exact hempty

theorem closedAt_setQueue {c : Nat} {ch : JobChannel} (hch : s.channels[c]? = some ch) (queue : List Job) (k : Nat) :
    (s.setQueue c ch queue).closedAt k = s.closedAt k := by
  show (s.channels.set c { ch with queue := queue })[k]?.map JobChannel.closed = _
  by_cases hk : c = k
  · subst hk
    rw [List.getElem?_set_self (List.getElem?_eq_some_iff.mp hch).1, closedAt, hch]
    rfl
  · rw [List.getElem?_set_ne hk]
    rfl

/-- Nothing is put in or taken off a channel while the engine is down. -/
theorem inv_setQueue (h : s.Inv) {c : Nat} {ch : JobChannel} (hch : s.channels[c]? = some ch)
    (hup : s.down = false) (queue : List Job) : (s.setQueue c ch queue).Inv := by
  refine ⟨h.running, h.jobs, fun k hk => ?_, h.once, h.unstopped, h.unstarted, h.first, fun jobs hstop => ?_,
    fun hstop w hw jobs hjobs => ?_, fun hdown => ?_, h.strays⟩
  · rw [closedAt_setQueue hch]
    exact h.opened k hk
  · obtain ⟨⟨k, hk, hopen, hne⟩, hworkers⟩ := h.closing jobs hstop
    refine ⟨⟨k, hk, ?_, hne⟩, hworkers⟩
    rw [closedAt_setQueue hch]
    exact hopen
  · obtain ⟨k, hk, hclosed⟩ := h.waiting hstop w hw jobs hjobs
    refine ⟨k, hk, ?_⟩
    rw [closedAt_setQueue hch]
    exact hclosed
  · have : s.down = true := hdown
    rw [hup] at this
    simp at this

theorem up_of_actions (h : s.Inv) {w : EngineWorker} (hw : w ∈ s.workers) (hactions : w.actions ≠ 0) :
    s.down = false := by
  by_contra hdown
  rw [Bool.not_eq_false] at hdown
  exact hactions ((idle_iff.mp (h.down hdown).2).1 w hw).1

theorem up_of_job (h : s.Inv) {w : EngineWorker} (hw : w ∈ s.workers) {c : Nat} (hchannel : w.channel = some (some c))
    {ch : JobChannel} (hch : s.channels[c]? = some ch) (hqueue : ch.queue ≠ []) : s.down = false := by
  by_contra hdown
  rw [Bool.not_eq_false] at hdown
  have hempty := ((idle_iff.mp (h.down hdown).2).1 w hw).2
  rw [waitingJobs, hchannel] at hempty
  simp only [hch, Option.map_some, Option.getD_some] at hempty
  exact hqueue hempty

theorem countAction_up (hup : s.down = false) : s.countAction = s := by
  have hsame : (s.strays + if s.down then 1 else 0) = s.strays := by
    rw [hup]
    rfl
  unfold countAction
  rw [hsame]

theorem inv_read (h : s.Inv) {i : Nat} (hw : s.workers[i]? = some .spawned) (hmeets : s.meets (.read i) = true) :
    (s.setWorker i (.ranging s.jobs)).Inv := by
  have hmem : EngineWorker.spawned ∈ s.workers := List.mem_of_getElem? hw
  have hreturned : ∀ call ∈ s.stops, call = .returned := fun call hcall =>
    of_decide_eq_true (List.all_eq_true.mp hmeets call hcall)
  refine ⟨h.running, h.jobs, h.opened, h.once, h.unstopped, fun hopen hstopped => ?_, fun hopen v hv jobs hjobs => ?_,
    fun jobs hstop => ?_, fun hstop => ?_, fun hdown => ⟨(h.down hdown).1, ?_⟩, h.strays⟩
  · rw [(h.unstarted hopen hstopped).1] at hmem
    exact absurd hmem List.not_mem_nil
  · rcases List.mem_or_eq_of_mem_set hv with hv | rfl
    · exact h.first hopen v hv jobs hjobs
    · exact (Option.some.inj hjobs).symm
  · have := hreturned _ hstop
    simp at this
  · have := hreturned _ hstop
    simp at this
  · obtain ⟨hworkers, hcatchUps⟩ := idle_iff.mp (h.down hdown).2
    have hnone : s.jobs = none := by
      rw [← Option.isSome_eq_false_iff.trans Option.isNone_iff_eq_none, ← h.jobs]
      exact (h.down hdown).1
    refine idle_iff.mpr ⟨fun v hv => ?_, hcatchUps⟩
    rcases List.mem_or_eq_of_mem_set hv with hv | rfl
    · exact hworkers v hv
    · refine ⟨rfl, ?_⟩
      rw [hnone]
      rfl

/-! ### Steps of `Start` and what it spawns -/

theorem inv_setStart (h : s.Inv) {k : Nat} {call : StartCall} (hk : s.starts[k]? = some call) (call' : StartCall) :
    (s.setStart k call').Inv := by
  refine ⟨h.running, h.jobs, h.opened, h.once, h.unstopped, fun hopen hstopped => ?_, h.first, h.closing, h.waiting,
    h.down, h.strays⟩
  have hmem := List.mem_of_getElem? hk
  rw [(h.unstarted hopen hstopped).2] at hmem
  exact absurd hmem List.not_mem_nil

theorem inv_spawn (h : s.Inv) {k : Nat} {call : StartCall} (hk : s.starts[k]? = some call) (call' : StartCall) :
    Inv { s.setStart k call' with workers := s.workers ++ [.spawned] } := by
  have hset := inv_setStart h hk call'
  have hold : ∀ v ∈ s.workers ++ [.spawned], ∀ jobs, v.channel = some jobs → v ∈ s.workers := by
    intro v hv jobs hjobs
    rcases List.mem_append.mp hv with hv | hv
    · exact hv
    · rw [List.mem_singleton.mp hv] at hjobs
      simp [EngineWorker.channel] at hjobs
  refine ⟨h.running, h.jobs, h.opened, h.once, h.unstopped, fun hopen hstopped => ?_,
    fun hopen v hv jobs hjobs => h.first hopen v (hold v hv jobs hjobs) jobs hjobs,
    fun jobs hstop => ⟨(h.closing jobs hstop).1, fun v hv jobs' hjobs =>
      (h.closing jobs hstop).2 v (hold v hv jobs' hjobs) jobs' hjobs⟩,
    fun hstop v hv jobs hjobs => h.waiting hstop v (hold v hv jobs hjobs) jobs hjobs,
    fun hdown => ⟨(h.down hdown).1, ?_⟩, h.strays⟩
  · have hmem := List.mem_of_getElem? hk
    rw [(h.unstarted hopen hstopped).2] at hmem
    exact absurd hmem List.not_mem_nil
  · obtain ⟨hworkers, hcatchUps⟩ := idle_iff.mp (h.down hdown).2
    refine idle_iff.mpr ⟨fun v hv => ?_, hcatchUps⟩
    rcases List.mem_append.mp hv with hv | hv
    · exact hworkers v hv
    · rw [List.mem_singleton.mp hv]
      exact ⟨rfl, rfl⟩

theorem inv_ticks (h : s.Inv) (ticks : Nat) : Inv { s with ticks := ticks } :=
  ⟨h.running, h.jobs, h.opened, h.once, h.unstopped, h.unstarted, h.first, h.closing, h.waiting, h.down, h.strays⟩

theorem inv_catchUps (h : s.Inv) {catchUps : List Nat}
    (hdown : s.down = true → (∀ n ∈ s.catchUps, n = 0) → ∀ n ∈ catchUps, n = 0) :
    Inv { s with catchUps := catchUps } := by
  refine ⟨h.running, h.jobs, h.opened, h.once, h.unstopped, h.unstarted, h.first, h.closing, h.waiting,
    fun hd => ⟨(h.down hd).1, ?_⟩, h.strays⟩
  obtain ⟨hworkers, hcatchUps⟩ := idle_iff.mp (h.down hd).2
  exact idle_iff.mpr ⟨hworkers, hdown hd hcatchUps⟩

theorem inv_start (h : s.Inv) : s.start.Inv := by
  unfold start
  split_ifs with hstarted
  · exact h
  rw [Bool.not_eq_true] at hstarted
  have hlt : ∀ c b, s.closedAt c = some b → c < s.channels.length := by
    intro c b hc
    obtain ⟨ch, hch, -⟩ := Option.map_eq_some_iff.mp hc
    exact (List.getElem?_eq_some_iff.mp hch).1
  have hkeep : ∀ c b, s.closedAt c = some b →
      ((s.channels ++ [({} : JobChannel)])[c]?.map JobChannel.closed) = some b := by
    intro c b hc
    rw [List.getElem?_append_left (hlt c b hc)]
    exact hc
  have hnew : (s.channels ++ [({} : JobChannel)])[s.channels.length]?.map JobChannel.closed = some false := by
    rw [List.getElem?_concat_length]
    rfl
  refine ⟨h.running, rfl, fun c hc => ?_, h.once, h.unstopped, fun _ hst => by simp at hst, fun hopen w hw => ?_,
    fun jobs hstop => ?_, fun hstop w hw jobs hjobs => ?_, fun hd => by simp at hd, h.strays⟩
  · obtain rfl := Option.some.inj hc
    exact hnew
  · rw [(h.unstarted hopen hstarted).1] at hw
    exact absurd hw List.not_mem_nil
  · obtain ⟨⟨c, hc, hopen, -⟩, hworkers⟩ := h.closing jobs hstop
    refine ⟨⟨c, hc, hkeep c false hopen, fun heq => ?_⟩, hworkers⟩
    have := hlt c false hopen
    rw [Option.some.inj heq] at this
    exact absurd this (Nat.lt_irrefl _)
  · obtain ⟨c, hc, hclosed⟩ := h.waiting hstop w hw jobs hjobs
    exact ⟨c, hc, hkeep c true hclosed⟩

/-! ### Steps of `Stop` -/

theorem inv_stop (h : s.Inv) (hmeets : s.meets .stop = true) : s.stop.Inv := by
  unfold stop
  simp only [meets] at hmeets
  by_cases hstarted : s.started = true
  · rw [if_pos hstarted, Bool.not_eq_true'] at hmeets
    rw [if_pos hstarted, hmeets, if_neg Bool.false_ne_true, h.unstopped hmeets]
    obtain ⟨c, hc⟩ := Option.isSome_iff_exists.mp (h.jobs ▸ hstarted)
    refine ⟨h.running, rfl, fun k hk => by simp at hk, Nat.le_refl 1, fun hst => by simp at hst,
      fun hst => by simp at hst, fun hst => by simp at hst, fun jobs hstop => ?_, fun hstop => ?_, fun hdown => ?_,
      h.strays⟩
    · have hjobs : jobs = s.jobs := by simpa using hstop
      refine ⟨⟨c, hjobs.trans hc, h.opened c hc, fun hn => by simp at hn⟩, fun w hw jobs' hw' => ?_⟩
      rw [hjobs]
      exact h.first hmeets w hw jobs' hw'
    · simp at hstop
    · exact absurd (hstarted.symm.trans (h.down hdown).1) (by simp)
  · rw [if_neg hstarted] at hmeets
    rw [if_neg hstarted]
    exact ⟨h.running, h.jobs, h.opened, h.once, h.unstopped, h.unstarted, h.first, h.closing, h.waiting,
      fun _ => ⟨Bool.eq_false_iff.mpr hstarted, hmeets⟩, h.strays⟩

/-- There is one `Stop` to go on. -/
theorem stops_eq (h : s.Inv) {k : Nat} {call : StopCall} (hk : s.stops[k]? = some call) (call' : StopCall) :
    s.stops = [call] ∧ s.stops.set k call' = [call'] := by
  obtain ⟨hlt, hget⟩ := List.getElem?_eq_some_iff.mp hk
  obtain ⟨only, honly⟩ := List.length_eq_one_iff.mp (Nat.le_antisymm h.once (Nat.zero_lt_of_lt hlt))
  have hzero : k = 0 := by
    rw [honly, List.length_singleton] at hlt
    omega
  subst hzero
  simp only [honly, List.getElem_cons_zero] at hget
  rw [honly, hget]
  exact ⟨rfl, rfl⟩

theorem inv_closeJobs (h : s.Inv) {k : Nat} {jobs : Option Nat} (hk : s.stops[k]? = some (.closing jobs)) :
    (s.closeJobs k jobs).Inv := by
  obtain ⟨hstops, hset⟩ := stops_eq h hk .waiting
  obtain ⟨⟨c, rfl, hopen, hother⟩, hworkers⟩ := h.closing jobs (List.mem_of_getElem? hk)
  obtain ⟨ch, hch, hclosed⟩ := Option.map_eq_some_iff.mp hopen
  have hlt := (List.getElem?_eq_some_iff.mp hch).1
  simp only [closeJobs, hch, hclosed, Bool.false_eq_true, if_false, setStop, hset]
  have hkeep : ∀ i, i ≠ c → (s.channels.set c { ch with closed := true })[i]?.map JobChannel.closed = s.closedAt i := by
    intro i hi
    rw [List.getElem?_set_ne (Ne.symm hi)]
    rfl
  refine ⟨h.running, h.jobs, fun i hi => ?_, Nat.le_refl 1, fun hst => ?_, h.unstarted, h.first, fun jobs hstop => ?_,
    fun _ w hw jobs hjobs => ⟨c, hworkers w hw jobs hjobs, ?_⟩, fun hdown => ⟨(h.down hdown).1, ?_⟩, h.strays⟩
  · show (s.channels.set c { ch with closed := true })[i]?.map JobChannel.closed = some false
    rw [hkeep i fun hic => hother (hic ▸ hi)]
    exact h.opened i hi
  · have := h.unstopped hst
    rw [hstops] at this
    simp at this
  · simp at hstop
  · show (s.channels.set c { ch with closed := true })[c]?.map JobChannel.closed = some true
    rw [List.getElem?_set_self hlt]
    rfl
  · obtain ⟨hidle, hcatchUps⟩ := idle_iff.mp (h.down hdown).2
    refine idle_iff.mpr ⟨fun w hw => ⟨(hidle w hw).1, ?_⟩, hcatchUps⟩
    have hempty := (hidle w hw).2
    unfold waitingJobs at hempty ⊢
    cases hchannel : w.channel with
    | none => rfl
    | some jobs =>
        obtain rfl := hworkers w hw jobs hchannel
        simp only [hchannel, hch, Option.map_some, Option.getD_some] at hempty
        simp only [List.getElem?_set_self hlt, Option.map_some, Option.getD_some]
        exact hempty

theorem inv_waited (h : s.Inv) {k : Nat} (hk : s.stops[k]? = some .waiting) (hdone : s.waitDone = true) :
    Inv { s.setStop k .returned with down := !s.started } := by
  obtain ⟨-, hset⟩ := stops_eq h hk .returned
  simp only [setStop, hset]
  unfold waitDone at hdone
  simp only [Bool.and_eq_true, List.all_eq_true, decide_eq_true_eq] at hdone
  refine ⟨h.running, h.jobs, h.opened, Nat.le_refl 1, fun hst => ?_, h.unstarted, h.first, fun jobs hstop => ?_,
    fun hstop => ?_, fun hdown => ⟨?_, ?_⟩, h.strays⟩
  · have hmem := List.mem_of_getElem? hk
    rw [h.unstopped hst] at hmem
    exact absurd hmem List.not_mem_nil
  · simp at hstop
  · simp at hstop
  · simpa using hdown
  · refine idle_iff.mpr ⟨fun w hw => ?_, fun n hn => ?_⟩
    · rw [hdone.1.1 w hw]
      exact ⟨rfl, rfl⟩
    · have : n ∈ s.catchUps := hn
      rw [hdone.2] at this
      exact absurd this List.not_mem_nil

/-! ### Runs -/

theorem inv_enqueue (h : s.Inv) (j : Job) : (s.enqueue cfg j).Inv := by
  unfold enqueue
  cases hjobs : s.jobs with
  | none => exact h
  | some c =>
      obtain ⟨ch, hch, hopen⟩ := Option.map_eq_some_iff.mp (h.opened c hjobs)
      have hup : s.down = false := by
        by_contra hdown
        rw [Bool.not_eq_false] at hdown
        have hstopped := (h.down hdown).1
        rw [h.jobs, hjobs] at hstopped
        simp at hstopped
      simp only [hch, hopen, Bool.false_eq_true, if_false]
      split_ifs
      · exact inv_setQueue h hch hup _
      · rw [← hjobs]
        exact ⟨h.running, h.jobs, h.opened, h.once, h.unstopped, h.unstarted, h.first, h.closing, h.waiting, h.down,
          h.strays⟩

theorem inv_take (h : s.Inv) {i actions : Nat} (hmove : s.move cfg (.take i actions) = some s') : s'.Inv := by
  simp only [move] at hmove
  split at hmove
  · next c hw =>
      split at hmove
      · next ch hch =>
          split at hmove
          · next j rest hqueue =>
              obtain rfl := Option.some.inj hmove
              have hup : s.down = false := up_of_job h (List.mem_of_getElem? hw) rfl hch (by rw [hqueue]; simp)
              refine inv_setWorker (w := .ranging (some c)) (inv_setQueue h hch hup rest) hw (fun jobs hjobs => hjobs)
                fun hdown => ?_
              have : s.down = true := hdown
              rw [hup] at this
              simp at this
          · simp at hmove
      · simp at hmove
  · simp at hmove

theorem inv_act (h : s.Inv) {i : Nat} (hmove : s.move cfg (.act i) = some s') : s'.Inv := by
  simp only [move] at hmove
  split at hmove
  · next jobs n hw =>
      obtain rfl := Option.some.inj hmove
      have hup : s.down = false := up_of_actions h (List.mem_of_getElem? hw) (Nat.succ_ne_zero n)
      rw [countAction_up hup]
      refine inv_setWorker h hw (fun _ hjobs => hjobs) fun hdown => ?_
      rw [hup] at hdown
      simp at hdown
  · simp at hmove

theorem inv_replay (h : s.Inv) {i : Nat} (hmove : s.move cfg (.replay i) = some s') : s'.Inv := by
  simp only [move] at hmove
  split at hmove
  · next n hn =>
      obtain rfl := Option.some.inj hmove
      have hup : s.down = false := by
        by_contra hdown
        rw [Bool.not_eq_false] at hdown
        have hzero := (idle_iff.mp (h.down hdown).2).2 (n + 1) (List.mem_of_getElem? hn)
        omega
      rw [countAction_up hup]
      refine inv_catchUps h fun hdown => ?_
      rw [hup] at hdown
      simp at hdown
  · simp at hmove

/-- **A step that meets the condition keeps the invariant.** -/
theorem inv_move (h : s.Inv) {l : EngineLabel} (hmeets : s.meets l = true) (hmove : s.move cfg l = some s') :
    s'.Inv := by
  cases l with
  | start =>
      obtain rfl := Option.some.inj hmove
      exact inv_start h
  | listed k ok =>
      obtain ⟨hk, hs'⟩ := Option.ite_none_right_eq_some.mp hmove
      obtain rfl := Option.some.inj hs'
      exact inv_setStart h hk _
  | spawn k =>
      simp only [move] at hmove
      split at hmove
      · next n hk =>
          obtain rfl := Option.some.inj hmove
          exact inv_spawn h hk _
      · simp at hmove
  | tickLoop k =>
      obtain ⟨hk, hs'⟩ := Option.ite_none_right_eq_some.mp hmove
      obtain rfl := Option.some.inj hs'
      exact inv_ticks (inv_setStart h hk .catchUpNext) _
  | catchUp k actions =>
      obtain ⟨hk, hs'⟩ := Option.ite_none_right_eq_some.mp hmove
      obtain rfl := Option.some.inj hs'
      refine inv_catchUps (inv_setStart h hk .returned) fun hdown hzero n hn => ?_
      rcases List.mem_append.mp hn with hn | hn
      · exact hzero n hn
      · have hdown : s.down = true := hdown
        simpa [meets, hdown, List.mem_singleton.mp hn] using hmeets
  | enqueue j =>
      obtain rfl := Option.some.inj hmove
      exact inv_enqueue h j
  | read i =>
      obtain ⟨hw, hs'⟩ := Option.ite_none_right_eq_some.mp hmove
      obtain rfl := Option.some.inj hs'
      exact inv_read h hw hmeets
  | take i actions => exact inv_take h hmove
  | act i => exact inv_act h hmove
  | fired i =>
      simp only [move] at hmove
      split at hmove
      · next jobs hw =>
          obtain rfl := Option.some.inj hmove
          exact inv_setWorker h hw (fun _ hjobs => hjobs) fun _ => rfl
      · simp at hmove
  | exit i =>
      simp only [move] at hmove
      split at hmove
      · next c hw =>
          obtain ⟨-, hs'⟩ := Option.ite_none_right_eq_some.mp hmove
          obtain rfl := Option.some.inj hs'
          exact inv_setWorker h hw (fun _ hjobs => by simp [EngineWorker.channel] at hjobs) fun _ => rfl
      · simp at hmove
  | replay i => exact inv_replay h hmove
  | caughtUp i =>
      obtain ⟨-, hs'⟩ := Option.ite_none_right_eq_some.mp hmove
      obtain rfl := Option.some.inj hs'
      exact inv_catchUps h fun _ hzero n hn => hzero n (List.mem_of_mem_eraseIdx hn)
  | tickEnds =>
      obtain ⟨-, hs'⟩ := Option.ite_none_right_eq_some.mp hmove
      obtain rfl := Option.some.inj hs'
      exact inv_ticks h _
  | stop =>
      obtain rfl := Option.some.inj hmove
      exact inv_stop h hmeets
  | closeJobs k =>
      simp only [move] at hmove
      split at hmove
      · next jobs hk =>
          obtain rfl := Option.some.inj hmove
          exact inv_closeJobs h hk
      · simp at hmove
  | waited k =>
      obtain ⟨⟨hk, hdone⟩, hs'⟩ := Option.ite_none_right_eq_some.mp hmove
      obtain rfl := Option.some.inj hs'
      exact inv_waited h hk hdone

theorem inv_step (s : EngineSys) (l : EngineLabel) (s' : EngineSys) (h : s.Inv) (hmeets : s.meets l = true)
    (hstep : s.step cfg l = some s') : s'.Inv := by
  unfold step at hstep
  rw [h.running, if_neg Bool.false_ne_true] at hstep
  exact inv_move h hmeets hstep

/-- **A run whose steps meet the condition is safe throughout.** -/
theorem lifecycle_safe (cfg : LifecycleConfig) (ls ms : List EngineLabel) (s : EngineSys)
    (hguard : Run.Guarded (step cfg) (fun s l => s.meets l = true) {} ls) (hms : ms <+: ls)
    (hrun : Run.exec (step cfg) {} ms = some s) : s.Safe := by
  obtain ⟨rest, rfl⟩ := hms
  have hpart := (Run.guarded_append hguard hrun).1
  exact safe_of_inv (Run.exec_invariant Inv inv_step ms {} s inv_init hpart hrun)

/-- Both workers look their channel up before the engine is stopped, which then drains it. -/
def orderlyStop : List EngineLabel :=
  [.start, .listed 0 true, .enqueue ⟨"s1", 60, "scheduler"⟩, .spawn 0, .spawn 0, .read 0, .tickLoop 0, .read 1,
    .catchUp 0 1, .replay 0, .stop, .enqueue ⟨"s1", 120, "scheduler"⟩, .closeJobs 0, .take 1 1, .exit 0, .act 1,
    .fired 1, .exit 1, .tickEnds, .caughtUp 0, .waited 0]

theorem lifecycle_safe_orderly :
    ∃ s, Run.exec (step (.withDefaults 2 0)) {} orderlyStop = some s ∧ s.Safe := by
  have hruns : (Run.exec (step (.withDefaults 2 0)) {} orderlyStop).isSome = true := by decide +kernel
  obtain ⟨s, hrun⟩ := Option.isSome_iff_exists.mp hruns
  exact ⟨s, hrun, lifecycle_safe (.withDefaults 2 0) orderlyStop orderlyStop s (by decide +kernel)
    List.prefix_rfl hrun⟩

/-- The engine is stopped before its worker has looked its channel up. -/
def overtakenWorker : List EngineLabel :=
  [.start, .listed 0 true, .spawn 0, .tickLoop 0, .catchUp 0 0, .stop, .read 0, .closeJobs 0]

/-- The engine is started again, and stopped again. -/
def secondRound : List EngineLabel :=
  [.start, .listed 0 true, .spawn 0, .read 0, .tickLoop 0, .catchUp 0 0, .stop, .closeJobs 0, .exit 0, .tickEnds,
    .caughtUp 0, .waited 0, .start, .stop]

/-- A second call of `Stop` returns while the first still drains the queue. -/
def secondStop : List EngineLabel :=
  [.start, .listed 0 true, .spawn 0, .read 0, .enqueue ⟨"s1", 60, "scheduler"⟩, .tickLoop 0, .catchUp 0 0, .stop,
    .stop, .take 0 1, .act 0]

/-- A `Stop` is left waiting for a worker at a channel that is `nil`, a second round closes the
stop channel twice, and an action starts after a `Stop` has returned. -/
theorem lifecycle_unsafe :
    ¬ (∀ cfg ls s, Run.exec (step cfg) {} ls = some s → s.Safe) ∧
    (∃ s, Run.exec (step (.withDefaults 1 0)) {} overtakenWorker = some s ∧ s.Stuck) ∧
    (∃ s, Run.exec (step (.withDefaults 1 0)) {} secondRound = some s ∧ s.panicked = true) ∧
    ∃ s, Run.exec (step (.withDefaults 1 0)) {} secondStop = some s ∧ s.strays = 1 := by
  have hround : ∃ s, Run.exec (step (.withDefaults 1 0)) {} secondRound = some s ∧ s.panicked = true := ⟨_, rfl, rfl⟩
  refine ⟨fun h => ?_, ⟨_, rfl, ?_⟩, hround, ⟨_, rfl, rfl⟩⟩
  · obtain ⟨s, hrun, hpanicked⟩ := hround
    exact absurd hpanicked (by rw [(h _ _ s hrun).running]; simp)
  · refine ⟨by decide, .ranging none, by decide, none, rfl, ?_⟩
    rintro ⟨c, hc, -⟩
    simp at hc

end EngineSys

end VMSmith
