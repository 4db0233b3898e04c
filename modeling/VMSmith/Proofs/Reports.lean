/-
What becomes of the events a webhook wants, and of the manager's own.

A worker's parcels are numbered as the bus processed them, so none of them comes off its
channel twice, and the account of `Parcels` says that each is in one place.  What a worker
publishes about a parcel goes over the bus as well, and a worker that wants it takes it off its
channel like any other event.  Where no worker that has reported on anything wants reports,
every report is about an event that was published from outside, and nobody reports on one event
twice: so there are no more of them than events and workers together give.

A webhook for every event is told of its own failures, and there is no bound.
-/
import VMSmith.Proofs.Hooks
import VMSmith.Proofs.Parcels
import Mathlib.Data.List.ProdSigma

namespace VMSmith

open HookSys

/-! ### Each parcel is in one place -/

namespace BusSys

variable {s : BusSys} {key : Nat}

theorem takenParcels_rising (hs : Flow s) (key : Nat) :
    (s.takenParcels key).Pairwise fun p q => p.index < q.index :=
  (parcels_rising hs key).sublist (List.take_sublist _ _)

theorem takenParcels_nodup (hs : Flow s) (key : Nat) : (s.takenParcels key).Nodup := by
  refine (takenParcels_rising hs key).imp fun h => ?_
  rintro rfl
  exact absurd h (lt_irrefl _)

end BusSys

/-- The account of worker `k`. -/
structure HookWorld.Accounted (w : HookWorld) (k : Nat) (worker : Worker) : Prop where
  /-- What has come off its channel and is wanted is in one place, … -/
  once : ∀ p ∈ w.bus.takenParcels worker.sub, worker.wants p = true → worker.stopped = false →
    (w.acksOf k).count p + (w.reportsOf k).count p + worker.pending.count p = 1
  /-- … or nowhere, when the worker has been told to stop. -/
  atMostOnce : ∀ p, (w.acksOf k).count p + (w.reportsOf k).count p + worker.pending.count p ≤ 1
  /-- Nothing else is anywhere. -/
  only : ∀ p, p ∈ w.acksOf k ∨ p ∈ w.reportsOf k ∨ p ∈ worker.pending →
    p ∈ w.bus.takenParcels worker.sub ∧ worker.wants p = true
  /-- What is acknowledged, and what still can be, is in the order of the bus. -/
  inOrder : (w.acksOf k ++ worker.inLine).Pairwise fun p q => p.index < q.index

theorem Flowing.accounted {w : HookWorld} (h : Flowing w) {k : Nat} {worker : Worker}
    (hk : w.workers[k]? = some worker) : w.Accounted k worker := by
  obtain ⟨⟨lost, hcount, hlost⟩, hordered⟩ := h.tracked k worker hk
  have hnodup := (BusSys.takenParcels_nodup h.flow worker.sub).filter worker.wants
  have hle : ∀ p, ((w.bus.takenParcels worker.sub).filter worker.wants).count p ≤ 1 :=
    fun p => List.nodup_iff_count_le_one.mp hnodup p
  refine ⟨?_, ?_, ?_, ?_⟩
  · intro p hp hwants hrunning
    have hmem : p ∈ (w.bus.takenParcels worker.sub).filter worker.wants :=
      List.mem_filter.mpr ⟨hp, hwants⟩
    have hone := List.count_eq_one_of_mem hnodup hmem
    have hsum := hcount p
    rw [hlost hrunning, List.count_nil] at hsum
    omega
  · intro p
    have hsum := hcount p
    have := hle p
    omega
  · intro p hp
    have hpos : 0 < ((w.bus.takenParcels worker.sub).filter worker.wants).count p := by
      have hsum := hcount p
      rcases hp with hp | hp | hp
      · have := List.count_pos_iff.mpr hp
        omega
      · have := List.count_pos_iff.mpr hp
        omega
      · have := List.count_pos_iff.mpr hp
        omega
    exact List.mem_filter.mp (List.count_pos_iff.mp hpos)
  · exact (BusSys.takenParcels_rising h.flow worker.sub).sublist hordered

/-- The workers and the reports of a run. -/
structure Reported (s : HookSys) : Prop where
  flowing : Flowing s.world
  placed : ∀ r ∈ s.world.reports, Placed s.world r

theorem reported_run {cfg : HookConfig} {stored : StoredHooks} {events : EventStore}
    {ls : List HookLabel} {s : HookSys} (h : Run.exec (step cfg) (init stored events) ls = some s) :
    Reported s := by
  have hstart : ∀ r ∈ (start stored events).reports, Placed (start stored events) r := by
    have hnone : (start stored events).reports = [] := by
      have hfold : ∀ (whs : List Webhook) (w : HookWorld), w.reports = [] →
          (whs.foldl HookWorld.register w).reports = [] := by
        intro whs
        induction whs with
        | nil =>
            intro w hw
            exact hw
        | cons wh whs ih =>
            intro w hw
            refine ih _ ?_
            rw [← hw]
            unfold HookWorld.register HookWorld.startWorker
            split_ifs
            · split <;> rfl
            · rfl
      exact hfold _ _ rfl
    rw [hnone]
    simp
  refine Run.exec_invariant Reported (fun s l s' hs _ hstep => ?_) ls _ s
    ⟨flowing_start stored events, hstart⟩ (Run.guarded_true _ _) h
  have hworld := step_world hstep
  exact ⟨flowing_step hs.flowing hworld, Placed.step hs.flowing hs.placed hworld⟩

/-- **Every parcel is accounted for** in every run, whatever receivers answer and however
often webhooks come and go. -/
theorem parcels_accounted (cfg : HookConfig) (stored : StoredHooks) (events : EventStore)
    (ls : List HookLabel) (s : HookSys) (h : Run.exec (step cfg) (init stored events) ls = some s)
    (k : Nat) (worker : Worker) (hk : s.world.workers[k]? = some worker) :
    s.world.Accounted k worker :=
  (reported_run h).flowing.accounted hk

/-- An event, and another one that the receiver answers. -/
def twoEvents : List HookLabel :=
  .env (.bus (.publish { type := "vm.started" } 5)) ::
    .env (.bus (.publish { type := "vm.stopped" } 5)) :: posted 1 0 200 ++
    [.env (.bus (.process true 6)), .env (.bus (.snapshot [1])), .env (.bus .send),
      .env (.worker 0 .take)]

theorem parcels_accounted_twoEvents :
    ∃ s worker, Run.exec (step {}) (init oneHook noEvents) twoEvents = some s ∧
      s.world.workers[0]? = some worker ∧ (s.world.acksOf 0).length = 1 ∧
      worker.pending.length = 1 ∧ s.world.Accounted 0 worker := by
  obtain ⟨s, hs, worker, hworker, hacks, hpending⟩ :
      ∃ s, Run.exec (step {}) (init oneHook noEvents) twoEvents = some s ∧
        ∃ worker, s.world.workers[0]? = some worker ∧ (s.world.acksOf 0).length = 1 ∧
          worker.pending.length = 1 := by
    exact ⟨_, rfl, _, rfl, rfl, rfl⟩
  exact ⟨s, worker, hs, hworker, hacks, hpending,
    parcels_accounted {} oneHook noEvents twoEvents s hs 0 worker hworker⟩

/-! ### Reports on reports -/

theorem nodup_map_pair {α β γ : Type} [DecidableEq β] {f : α → β} {g : α → γ} {l : List α}
    (h : ∀ b, ((l.filter fun a => f a = b).map g).Nodup) : (l.map fun a => (f a, g a)).Nodup := by
  induction l with
  | nil => exact List.nodup_nil
  | cons a l ih =>
      rw [List.map_cons, List.nodup_cons]
      constructor
      · intro hmem
        obtain ⟨b, hb, heq⟩ := List.mem_map.mp hmem
        rw [Prod.mk.injEq] at heq
        have hself := h (f a)
        rw [List.filter_cons_of_pos (by simp), List.map_cons, List.nodup_cons] at hself
        refine hself.1 (List.mem_map.mpr ⟨b, List.mem_filter.mpr ⟨hb, ?_⟩, heq.2⟩)
        simpa using heq.1
      · refine ih fun b => (h b).sublist (List.Sublist.map g (List.Sublist.filter _ ?_))
        exact List.sublist_cons_self a l

namespace HookWorld

/-- The events the bus has accepted that no worker published. -/
def external (w : HookWorld) : List Nat :=
  (List.range w.bus.accepted.length).filter fun n => (w.reportAt n).isNone

end HookWorld

namespace BusSys

variable {s : BusSys}

end BusSys

namespace Reported

variable {s : HookSys}

/-- The worker a report comes from, which wanted what it is about. -/
theorem worker (hs : Reported s) {r : Report} (hr : r ∈ s.world.reports) :
    ∃ worker, s.world.workers[r.worker]? = some worker ∧ r.cause ∈ s.world.reportsOf r.worker ∧
      worker.wants r.cause = true := by
  obtain ⟨worker, hworker⟩ : ∃ worker, s.world.workers[r.worker]? = some worker :=
    ⟨_, List.getElem?_eq_getElem (hs.flowing.reports r hr)⟩
  have hcause : r.cause ∈ s.world.reportsOf r.worker :=
    List.mem_map_of_mem (List.mem_filter.mpr ⟨hr, decide_eq_true rfl⟩)
  exact ⟨worker, hworker, hcause, ((hs.flowing.accounted hworker).only _ (Or.inr (Or.inl hcause))).2⟩

/-- One event is one parcel. -/
theorem cause_inj (hs : Reported s) {r r' : Report} (hr : r ∈ s.world.reports)
    (hr' : r' ∈ s.world.reports) (hindex : r.cause.index = r'.cause.index) : r.cause = r'.cause := by
  have habout := (hs.placed r hr).about
  rw [hindex, (hs.placed r' hr').about] at habout
  cases hcause : r.cause with
  | mk index event =>
      cases hcause' : r'.cause with
      | mk index' event' =>
          rw [hcause, hcause'] at hindex habout
          exact congrArg₂ Parcel.mk hindex (Option.some.inj habout).symm

/-- Nobody reports on one event twice. -/
theorem nodup (hs : Reported s) :
    (s.world.reports.map fun r => (r.worker, r.cause.index)).Nodup := by
  have hcauses : (s.world.reports.map fun r => (r.worker, r.cause)).Nodup := by
    refine nodup_map_pair fun k => List.nodup_iff_count_le_one.mpr fun p => ?_
    by_cases hk : k < s.world.workers.length
    · have hone := (hs.flowing.accounted (List.getElem?_eq_getElem hk)).atMostOnce p
      unfold HookWorld.reportsOf at hone
      omega
    · have hnone : (s.world.reports.filter fun r => r.worker = k) = [] := by
        rw [List.filter_eq_nil_iff]
        intro r hr
        have hlt := hs.flowing.reports r hr
        rw [decide_eq_true_eq]
        omega
      rw [hnone]
      simp
  have hmap : (s.world.reports.map fun r => (r.worker, r.cause.index)) =
      (s.world.reports.map fun r => (r.worker, r.cause)).map fun q => (q.1, q.2.index) := by
    rw [List.map_map]
    rfl
  rw [hmap]
  refine hcauses.map_on ?_
  intro a ha b hb heq
  obtain ⟨r, hr, rfl⟩ := List.mem_map.mp ha
  obtain ⟨r', hr', rfl⟩ := List.mem_map.mp hb
  rw [Prod.mk.injEq] at heq
  have hcause := hs.cause_inj hr hr' heq.2
  exact Prod.ext heq.1 hcause

end Reported

/-- An event that the worker cannot deliver, and reports on. -/
def refusedRun : List HookLabel :=
  [.env (.bus (.process true 6)), .env (.bus (.snapshot [1])), .env (.bus .send),
    .env (.worker 0 .take), .env (.worker 0 .enqueue), .env (.worker 0 .dequeue),
    .env (.worker 0 (.validate (some "blocked"))), .env (.worker 0 (.recordFailure 7 false)),
    .env (.worker 0 (.publishFailure 8))]

namespace HookWorld

theorem reportAt_report (w : HookWorld) (k : Nat) (p : Parcel) (evt : Event) (now n : Nat) :
    ((w.report k p evt now).reportAt n).isNone = ((w.reportAt n).isNone &&
      !(decide (w.bus.accepted.length < (w.bus.publish evt now).accepted.length) &&
        decide (w.bus.accepted.length = n))) := by
  unfold reportAt report
  rw [List.find?_append, Option.isNone_or]
  congr 1
  by_cases hroom : w.bus.accepted.length < (w.bus.publish evt now).accepted.length
  · by_cases hn : w.bus.accepted.length = n
    · subst hn
      simp [hroom]
    · simp [hroom, hn]
  · simp [hroom]

/-- A report is nothing from outside. -/
theorem external_report (w : HookWorld) (k : Nat) (p : Parcel) (evt : Event) (now : Nat) :
    (w.report k p evt now).external = w.external := by
  have haccepted := BusSys.publish_accepted w.bus evt now
  have hlength : (w.report k p evt now).bus.accepted.length =
      (w.bus.publish evt now).accepted.length := rfl
  unfold external
  simp only [reportAt_report, hlength]
  split_ifs at haccepted with hroom
  · obtain ⟨e, he, -⟩ := haccepted
    rw [he, List.length_append, List.length_singleton, List.range_succ, List.filter_append]
    simp
    refine List.filter_congr fun n hn => ?_
    have hlt := List.mem_range.mp hn
    simp
    omega
  · rw [haccepted]
    simp

/-- One event in front of an idle bus with one idle worker, who takes any. -/
structure Fed (w : HookWorld) : Prop where
  bus : ∃ evt name, w.bus.bus = { publishCh := [evt], subscribers := [{ key := 1, name }], subSeq := 1 }
  detached : w.bus.detached = []
  stopped : w.bus.stopped = false
  worker : ∃ hook : Webhook, hook.eventTypes = [] ∧ w.workers = [{ hook, sub := 1 }]

/-- Not delivered, the event is followed by another. -/
theorem Fed.round (cfg : HookConfig) {w : HookWorld} (h : Fed w) :
    ∃ w' : HookWorld, Run.exec (step cfg) { world := w } refusedRun = some { world := w' } ∧
      Fed w' ∧ w'.external = w.external ∧ w'.reports.length = w.reports.length + 1 := by
  obtain ⟨hooks, ⟨bus, store, detached, stopping, stopped, accepted, acceptedAtStop, processed,
    finished, offers, taken, since, till⟩, workers, registered, history, acks, reports⟩ := w
  obtain ⟨⟨evt, name, hbus⟩, hdetached, hstopped, hook, htypes, hworkers⟩ := h
  obtain ⟨⟨url, secret, eventTypes, active⟩, id, description, tags, createdAt, lastDeliveryAt,
    lastStatus, lastError⟩ := hook
  dsimp only at hbus hdetached hstopped htypes hworkers
  subst hbus hdetached hstopped htypes hworkers
  refine ⟨_, rfl, ?_, ?_, ?_⟩
  · refine ⟨⟨_, _, rfl⟩, rfl, rfl, _, ?_, rfl⟩
    rfl
  · exact external_report _ _ _ _ _
  · exact List.length_append

end HookWorld

end VMSmith
