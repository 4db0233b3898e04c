/-
Webhook records and workers stay consistent.

Every writer of a webhook's record writes the whole of it: a PATCH, a test, and a worker
with the copy it was started with.  A write goes over what has been written since its
writer read the record, and brings back a record deleted since.  The manager is told in
steps of their own, so between a PATCH's two of them another can start a worker that then
stays.  `Clear` is the condition on a step that excludes these.

A worker is seen here by what never changes but for the signal to stop: its `core`.
-/
import VMSmith.Proofs.HookCalls

namespace VMSmith

open Records (Kept)
open HookCall (view)

/-- What a worker is, whatever it is doing. -/
structure WorkerCore where
  id : String
  config : WebhookConfig
  stopped : Bool
  deriving DecidableEq, Repr

def Worker.core (worker : Worker) : WorkerCore where
  id := worker.hook.id
  config := worker.hook.config
  stopped := worker.stopped

namespace HookWorld

def cores (w : HookWorld) : List WorkerCore := w.workers.map Worker.core

/-- The configuration of the manager's worker for a webhook. -/
def running (w : HookWorld) (id : String) : Option WebhookConfig :=
  (w.registered.get? id).bind fun k => w.cores[k]?.map WorkerCore.config

/-- The configuration a worker is called for with. -/
def calledFor (w : HookWorld) (id : String) : Option WebhookConfig :=
  (w.hooks.get? id).bind fun wh => if wh.active then some wh.config else none

/-- What runs once this is registered: the worker there is, or a new one. -/
def afterRegister (w : HookWorld) (wh : Webhook) : Option WebhookConfig :=
  (w.running wh.id).or (if wh.active then some wh.config else none)

/-- Nothing was changed since but what this write sets, and the record is still there. -/
def fresh (w : HookWorld) (wh : Webhook) (why : HookWrite) : Bool :=
  (w.hooks.get? wh.id).any fun cur => why.lay WebhookUpdateSpec.apply cur.config = wh.config

end HookWorld

namespace HookSys

/-- Another call has written or deleted the webhook and is yet to tell the manager. -/
def awaited (s : HookSys) (i : Nat) (id : String) : Bool :=
  (List.range s.threads.length).any fun j => j ≠ i && (s.threads[j]?).any fun u =>
    (view u).unsettled = some id

/-- Call `i` may have this command answered so. -/
def admits (s : HookSys) (i : Nat) (x : HookChoice) : HookCmd → Bool
  | .putWebhook wh why => x.fail.isSome || s.world.fresh wh why
  | .register wh => s.world.afterRegister wh = s.world.calledFor wh.id || awaited s i wh.id
  | _ => true

def clear (s : HookSys) (i : Nat) (t : HookCall) (x : HookChoice) : Bool :=
  match t.prog with
  | .call c _ => admits s i x c
  | _ => true

/-- Worker `k` persists a status over the configuration it was started with. -/
def clearMove (s : HookSys) (k : Nat) : WorkerMove → Bool
  | .recordSuccess _ true | .recordFailure _ true =>
      s.world.workers[k]?.all fun worker => s.world.fresh worker.hook .touch
  | _ => true

/-- The condition on a step.  The calls are requests, and the daemon is not restarted. -/
def Clear (s : HookSys) : HookLabel → Prop
  | .call op => op.isRequest = true
  | .step i x => ∀ t ∈ s.threads[i]?, clear s i t x = true
  | .env (.worker k m) => clearMove s k m = true
  | .env (.bus _) => True
  | .restart _ => False

instance : ∀ (s : HookSys) (l : HookLabel), Decidable (Clear s l)
  | _, .call _ => inferInstanceAs (Decidable (_ = true))
  | _, .step _ _ => inferInstanceAs (Decidable (∀ _ ∈ _, _))
  | _, .env (.worker _ _) => inferInstanceAs (Decidable (_ = true))
  | _, .env (.bus _) => .isTrue trivial
  | _, .restart _ => .isFalse id

/-- What one command of a call does to the world and to its account. -/
inductive Effect (s : HookSys) (i : Nat) (op : HookOp) (w' : HookWorld) (v v' : HookView) : Prop
  | quiet (hw : w' = s.world) (hv : v' = v)
  | fetched (id : String) (wh : Webhook) (hw : w' = s.world)
      (hstored : s.world.hooks.get? id = some wh) (hv : v' = { v with read := some (id, wh) })
  | patched (wh old : Webhook) (req : WebhookUpdateSpec) (hop : op = .update op.target req)
      (hread : v.read = some (op.target, old)) (hid : wh.id = old.id) (hunsettled : v.unsettled = none)
      (hfresh : s.world.fresh wh (.patch req) = true) (hw : w' = s.world.putWebhook wh (.patch req))
      (hv : v' = { v with wrote := true, unsettled := some wh.id })
  | tested (wh : Webhook) (hfresh : s.world.fresh wh .touch = true)
      (hw : w' = s.world.putWebhook wh .touch) (hv : v' = v)
  | deleted (id : String) (hop : op = .delete id) (hunsettled : v.unsettled = none)
      (hw : w' = { s.world with
        hooks := s.world.hooks.erase id, history := .deleted id :: s.world.history })
      (hv : v' = { v with dropped := true, unsettled := some id })
  | registered (wh : Webhook) (hunsettled : v.unsettled = some wh.id)
      (hwhy : s.world.afterRegister wh = s.world.calledFor wh.id ∨
        ∃ (j : Nat) (u : HookCall), s.threads[j]? = some u ∧ j ≠ i ∧ (view u).unsettled = some wh.id)
      (hw : w' = s.world.register wh) (hv : v' = { v with unsettled := none })
  | unregistered (id : String) (hunsettled : v.unsettled = some id)
      (hop : v.dropped = true → op = .delete id) (hw : w' = s.world.unregister id)
      (hv : v' = if v.dropped then { v with unsettled := none } else v)

variable {stored : StoredHooks} {events : EventStore} {cfg : HookConfig} {s s' : HookSys} {i : Nat}
  {t : HookCall} {x : HookChoice} {w w' : HookWorld} {op : HookOp} {v v' : HookView}

theorem awaited_iff {id : String} : awaited s i id = true ↔
    ∃ (j : Nat) (u : HookCall), s.threads[j]? = some u ∧ j ≠ i ∧ (view u).unsettled = some id := by
  simp only [awaited, List.any_eq_true, List.mem_range, Bool.and_eq_true, decide_eq_true_eq,
    Option.any_eq_true]
  constructor
  · rintro ⟨j, -, hji, u, hu, h⟩
    exact ⟨j, u, hu, hji, h⟩
  · rintro ⟨j, u, hu, hji, h⟩
    exact ⟨j, (List.getElem?_eq_some_iff.mp hu).1, hji, u, hu, h⟩

theorem effect {c : HookCmd} {r : c.Resp} (hrequest : t.op.isRequest = true)
    (hok : t.op.ok (view t) c) (hclear : admits s i x c = true)
    (hexec : HookWorld.exec c x s.world = some (r, w')) :
    Effect s i t.op w' (view t) ((view t).add c r) := by
  cases c with
  | getWebhook id =>
      rcases fallible_eq hexec with ⟨e, rfl, rfl⟩ | ⟨wh, -, hact, rfl⟩
      · exact .quiet rfl rfl
      · split at hact
        · next hstored =>
            simp only [Except.ok.injEq, Prod.mk.injEq] at hact
            obtain ⟨rfl, rfl⟩ := hact
            exact .fetched id _ rfl hstored rfl
        · simp at hact
  | putWebhook wh why =>
      change Except Err Unit at r
      rcases fallible_ok hexec with ⟨-, ⟨e, rfl⟩, rfl⟩ | ⟨hx, rfl, rfl⟩
      · cases why <;> exact .quiet rfl rfl
      · rw [admits, hx, Option.isSome_none, Bool.false_or] at hclear
        obtain ⟨hunsettled, old, hread, hid, hop⟩ := hok
        cases why with
        | patch req => exact .patched wh old req (hop req rfl) hread hid hunsettled hclear rfl rfl
        | touch => exact .tested wh hclear rfl rfl
  | deleteWebhook id =>
      change Except Err Unit at r
      rcases fallible_ok hexec with ⟨-, ⟨e, rfl⟩, rfl⟩ | ⟨-, rfl, rfl⟩
      · exact .quiet rfl rfl
      · exact .deleted id hok.1 hok.2 rfl rfl
  | register wh =>
      obtain ⟨rfl, rfl⟩ := Prod.mk.injEq _ _ _ _ ▸ Option.some.inj hexec
      rw [admits, Bool.or_eq_true, decide_eq_true_eq, awaited_iff] at hclear
      exact .registered wh (hok hrequest) hclear rfl rfl
  | unregister id =>
      obtain ⟨rfl, rfl⟩ := Prod.mk.injEq _ _ _ _ ▸ Option.some.inj hexec
      exact .unregistered id (hok hrequest).1 (hok hrequest).2 rfl rfl
  | post url secret evt =>
      rcases fallible_ok hexec with ⟨-, ⟨e, rfl⟩, rfl⟩ | ⟨-, rfl, rfl⟩
      · exact .quiet rfl rfl
      · exact .quiet rfl rfl
  | now | validateTarget url =>
      obtain ⟨rfl, rfl⟩ := Prod.mk.injEq _ _ _ _ ▸ Option.some.inj hexec
      exact .quiet rfl rfl

end HookSys

namespace HookWorld

/-! ### The manager -/

/-- The manager's map lists the workers that have not been told to stop. -/
def Manned (w : HookWorld) : Prop :=
  ∀ id k, w.registered.get? id = some k ↔
    ∃ c, w.cores[k]? = some c ∧ c.id = id ∧ c.stopped = false

variable {w w' : HookWorld}

/-- The map and the workers as they are seen here. -/
structure SameWorkers (w w' : HookWorld) : Prop where
  cores : w'.cores = w.cores
  registered : w'.registered = w.registered

theorem SameWorkers.running (h : SameWorkers w w') (id : String) : w'.running id = w.running id := by
  rw [HookWorld.running, HookWorld.running, h.registered, h.cores]

theorem SameWorkers.manned (h : SameWorkers w w') (hw : w.Manned) : w'.Manned := by
  intro id k
  rw [h.registered, h.cores]
  exact hw id k

theorem running_of_manned (hw : w.Manned) {id : String} {c : WebhookConfig} :
    w.running id = some c ↔
      ∃ core ∈ w.cores, core.id = id ∧ core.stopped = false ∧ core.config = c := by
  simp only [running, Option.bind_eq_some_iff, Option.map_eq_some_iff, hw id]
  constructor
  · rintro ⟨k, ⟨core', hcore', hid, hstopped⟩, core, hcore, rfl⟩
    obtain rfl : core' = core := Option.some.inj (hcore'.symm.trans hcore)
    exact ⟨core', List.mem_of_getElem? hcore, hid, hstopped, rfl⟩
  · rintro ⟨core, hmem, hid, hstopped, rfl⟩
    obtain ⟨k, hk⟩ := List.getElem?_of_mem hmem
    exact ⟨k, ⟨core, hk, hid, hstopped⟩, core, hk, rfl⟩

theorem running_none (hw : w.Manned) {id : String} : w.running id = none ↔ w.registered.get? id = none := by
  cases hreg : w.registered.get? id with
  | none => simp [running, hreg]
  | some k =>
      obtain ⟨c, hc, -⟩ := (hw id k).mp hreg
      simp [running, hreg, hc]

/-- The signal to worker `k`. -/
def WorkerCore.stop (c : WorkerCore) : WorkerCore := { c with stopped := true }

theorem cores_stop (k j : Nat) : ((w.workers.modify k fun worker => { worker with stopped := true }).map
    Worker.core)[j]? = if k = j then w.cores[j]?.map WorkerCore.stop else w.cores[j]? := by
  rw [List.getElem?_map, List.getElem?_modify, cores, List.getElem?_map, Option.map_eq_map]
  cases w.workers[j]? with
  | none => simp
  | some worker =>
      split_ifs with hkj
      · simp only [Option.map_some]
        rfl
      · simp only [Option.map_some]

theorem unregister_manned (hw : w.Manned) (id : String) : (w.unregister id).Manned := by
  unfold unregister
  split
  · exact hw
  · next k hk =>
      obtain ⟨c, hc, hcid, -⟩ := (hw id k).mp hk
      intro id' k'
      show (w.registered.erase id).get? id' = some k' ↔ _
      rw [cores, cores_stop, Bucket.mem_erase, hw id' k']
      split_ifs with hkk
      · subst hkk
        simp only [hc, Option.map_some, Option.some.injEq, exists_eq_left', WorkerCore.stop]
        simp only [Bool.true_eq_false, and_false, iff_false, not_and]
        exact fun hne heq => absurd (heq.symm.trans hcid) hne
      · refine ⟨fun h => h.2, fun h => ⟨?_, h⟩⟩
        rintro rfl
        exact hkk (Option.some.inj (hk.symm.trans ((hw id' k').mpr h)))

theorem unregister_running (hw : w.Manned) (id id' : String) :
    (w.unregister id).running id' = if id' = id then none else w.running id' := by
  have hw' := unregister_manned hw id
  unfold unregister at hw' ⊢
  split
  · next hk =>
      split_ifs with hid
      · rw [hid, running_none hw, hk]
      · rfl
  · next k hk =>
      rw [hk] at hw'
      split_ifs with hid
      · rw [hid, running_none hw']
        exact Bucket.get?_erase_self _ _
      · rw [running, running]
        show ((w.registered.erase id).get? id').bind _ = _
        rw [Bucket.get?_erase_ne _ hid]
        cases hreg : w.registered.get? id' with
        | none => rfl
        | some k' =>
            have hne : k ≠ k' := by
              rintro rfl
              obtain ⟨c, hc, hcid, -⟩ := (hw id k).mp hk
              obtain ⟨c', hc', hcid', -⟩ := (hw id' k).mp hreg
              obtain rfl : c = c' := Option.some.inj (hc.symm.trans hc')
              exact hid (hcid'.symm.trans hcid)
            rw [Option.bind_some, Option.bind_some, cores, cores_stop, if_neg hne]

/-- A new worker is listed. -/
theorem startWorker_none {wh : Webhook} (hnone : w.registered.get? wh.id = none) :
    (w.startWorker wh).cores = w.cores ++ [⟨wh.id, wh.config, false⟩] ∧
      (w.startWorker wh).registered = w.registered.put wh.id w.cores.length := by
  unfold startWorker
  rw [hnone]
  refine ⟨List.map_append, ?_⟩
  show w.registered.put wh.id w.workers.length = _
  rw [cores, List.length_map]

theorem startWorker_some {wh : Webhook} {k : Nat} (hk : w.registered.get? wh.id = some k) :
    w.startWorker wh = w := by
  unfold startWorker
  rw [hk]

theorem startWorker_manned (hw : w.Manned) (wh : Webhook) : (w.startWorker wh).Manned := by
  cases hnone : w.registered.get? wh.id with
  | some k =>
      rw [startWorker_some hnone]
      exact hw
  | none =>
      obtain ⟨hcores, hreg⟩ := startWorker_none hnone
      intro id k
      rw [hcores, hreg, Bucket.get?_put, List.getElem?_append]
      split_ifs with hid hk hk
      · subst hid
        rw [← hw wh.id k, hnone]
        simp only [Option.some.injEq, reduceCtorEq, iff_false]
        omega
      · rw [Option.some.injEq, List.getElem?_singleton]
        constructor
        · rintro rfl
          exact ⟨_, by rw [Nat.sub_self, if_pos rfl], hid.symm, rfl⟩
        · rintro ⟨c, hc, -⟩
          split_ifs at hc
          omega
      · exact hw id k
      · rw [List.getElem?_singleton]
        constructor
        · intro hreg
          obtain ⟨c, hc, -⟩ := (hw id k).mp hreg
          have := (List.getElem?_eq_some_iff.mp hc).1
          omega
        · rintro ⟨c, hc, hcid, -⟩
          split_ifs at hc
          obtain rfl := Option.some.inj hc
          exact absurd hcid.symm hid

theorem register_manned (hw : w.Manned) (wh : Webhook) : (w.register wh).Manned := by
  unfold register
  split_ifs
  · exact startWorker_manned hw wh
  · exact hw

theorem startWorker_running (hw : w.Manned) (wh : Webhook) (id : String) :
    (w.startWorker wh).running id =
      if id = wh.id then (w.running wh.id).or (some wh.config) else w.running id := by
  cases hnone : w.registered.get? wh.id with
  | some k =>
      obtain ⟨c, hc⟩ : ∃ c, w.running wh.id = some c := by
        refine Option.ne_none_iff_exists'.mp fun h => ?_
        rw [running_none hw, hnone] at h
        simp at h
      rw [startWorker_some hnone, hc, Option.some_or, ← hc]
      split_ifs with hid
      · rw [hid]
      · rfl
  | none =>
      obtain ⟨hcores, hreg⟩ := startWorker_none hnone
      split_ifs with hid
      · rw [(running_none hw).mpr hnone, Option.none_or,
          running_of_manned (startWorker_manned hw wh), hcores]
        exact ⟨_, List.mem_append_right _ List.mem_cons_self, hid.symm, rfl, rfl⟩
      · rw [running, running, hreg, Bucket.get?_put_ne _ _ hid, hcores]
        cases hreg' : w.registered.get? id with
        | none => rfl
        | some k =>
            obtain ⟨c, hc, -⟩ := (hw id k).mp hreg'
            rw [Option.bind_some, Option.bind_some,
              List.getElem?_append_left (List.getElem?_eq_some_iff.mp hc).1]

theorem register_running (hw : w.Manned) (wh : Webhook) (id : String) :
    (w.register wh).running id = if id = wh.id then w.afterRegister wh else w.running id := by
  unfold register afterRegister
  by_cases hactive : wh.active = true
  · rw [if_pos hactive, if_pos hactive, startWorker_running hw]
  · rw [if_neg hactive, if_neg hactive, Option.or_none]
    split_ifs with hid
    · rw [hid]
    · rfl

/-- Nothing but the workers, the bus and what it is told changes. -/
structure SameRecords (w w' : HookWorld) : Prop where
  hooks : w'.hooks = w.hooks
  history : w'.history = w.history

theorem register_records (wh : Webhook) : SameRecords w (w.register wh) := by
  unfold register startWorker
  split_ifs
  · split <;> exact ⟨rfl, rfl⟩
  · exact ⟨rfl, rfl⟩

theorem unregister_records (id : String) : SameRecords w (w.unregister id) := by
  unfold unregister
  split <;> exact ⟨rfl, rfl⟩

/-! ### A worker's steps -/

/-- A worker is set back with its core unchanged. -/
theorem setWorker_same {k : Nat} {worker worker' : Worker} (hw : w'.workers = w.workers)
    (hk : w.workers[k]? = some worker) (hcore : worker'.core = worker.core) :
    (w'.setWorker k worker').cores = w.cores := by
  refine List.ext_getElem? fun j => ?_
  rw [cores, cores, List.getElem?_map, List.getElem?_map, setWorker, hw]
  by_cases hkj : k = j
  · subst hkj
    rw [List.getElem?_set_self (List.getElem?_eq_some_iff.mp hk).1, hk, Option.map_some, Option.map_some,
      hcore]
  · rw [List.getElem?_set_ne hkj]

/-- What a step of a worker does to the records and the workers: a status is written with the
worker's copy, or nothing happens. -/
theorem workerStep_same {cfg : HookConfig} {k : Nat} {worker : Worker} {m : WorkerMove}
    (hk : w.workers[k]? = some worker) (h : WorkerStep cfg w k worker m w') :
    SameWorkers w w' ∧ (SameRecords w w' ∨ ∃ wh : Webhook, wh.id = worker.hook.id ∧
      wh.config = worker.hook.config ∧ w'.hooks = w.hooks.put wh.id wh ∧
      w'.history = .wrote wh.id .touch :: w.history ∧
      ∃ now, m = .recordSuccess now true ∨ m = .recordFailure now true) := by
  cases h with
  | take | skipped | queued | overflowed | publishedOverflow | stoppedReader | dequeued | validated
  | refused | acknowledged | timer | abandoned | publishedFailure | stoppedDelivery | cancelledSub =>
      exact ⟨⟨setWorker_same rfl hk rfl, rfl⟩, .inl ⟨rfl, rfl⟩⟩
  | unanswered p attempt failure status message last =>
      refine ⟨⟨setWorker_same rfl hk ?_, rfl⟩, .inl ⟨rfl, rfl⟩⟩
      unfold retryOrFail
      split_ifs <;> rfl
  | recordedSuccess status now persisted =>
      unfold persist
      cases persisted with
      | false => exact ⟨⟨setWorker_same rfl hk rfl, rfl⟩, .inl ⟨rfl, rfl⟩⟩
      | true =>
          refine ⟨⟨setWorker_same rfl hk rfl, rfl⟩, .inr ⟨(worker.recorded now status "").hook, ?_⟩⟩
          exact ⟨rfl, rfl, rfl, rfl, now, .inl rfl⟩
  | recordedFailure p message status now persisted =>
      unfold persist
      cases persisted with
      | false => exact ⟨⟨setWorker_same rfl hk rfl, rfl⟩, .inl ⟨rfl, rfl⟩⟩
      | true =>
          refine ⟨⟨setWorker_same rfl hk rfl, rfl⟩, .inr ⟨(worker.recorded now status message).hook, ?_⟩⟩
          exact ⟨rfl, rfl, rfl, rfl, now, .inr rfl⟩

/-! ### Records -/

/-- What holds of the records at any time. -/
structure Settled (stored : StoredHooks) (w : HookWorld) : Prop where
  keyed : ∀ id wh, w.hooks.get? id = some wh → wh.id = id
  kept : Kept WebhookUpdateSpec.apply Webhook.config stored.hooks w.hooks w.history

variable {stored : StoredHooks}

theorem Settled.same (h : Settled stored w) (hw : SameRecords w w') : Settled stored w' := by
  constructor
  · rw [hw.hooks]
    exact h.keyed
  · rw [hw.hooks, hw.history]
    exact h.kept

theorem fresh_iff {wh : Webhook} {why : HookWrite} : w.fresh wh why = true ↔
    ∃ cur, w.hooks.get? wh.id = some cur ∧ wh.config = why.lay WebhookUpdateSpec.apply cur.config := by
  rw [fresh, Option.any_eq_true]
  refine exists_congr fun cur => and_congr_right fun _ => ?_
  rw [decide_eq_true_eq, eq_comm]

theorem Settled.put (h : Settled stored w) {wh : Webhook} {why : HookWrite}
    (hfresh : w.fresh wh why = true) : Settled stored (w.putWebhook wh why) := by
  obtain ⟨cur, hcur, hconfig⟩ := fresh_iff.mp hfresh
  refine ⟨fun id wh' hwh' => ?_, h.kept.put hcur hconfig⟩
  rcases Bucket.mem_put hwh' with ⟨rfl, rfl⟩ | ⟨-, hold⟩
  · rfl
  · exact h.keyed id wh' hold

theorem Settled.delete (h : Settled stored w) (id : String) : Settled stored { w with
    hooks := w.hooks.erase id, history := .deleted id :: w.history } where
  keyed := fun id' wh hwh => h.keyed id' wh (Bucket.mem_erase.mp hwh).2
  kept := h.kept.delete id

theorem SameRecords.calledFor (h : SameRecords w w') (id : String) :
    w'.calledFor id = w.calledFor id := by
  rw [HookWorld.calledFor, HookWorld.calledFor, h.hooks]

theorem calledFor_put_ne {wh : Webhook} {why : HookWrite} {id : String} (hne : id ≠ wh.id) :
    (w.putWebhook wh why).calledFor id = w.calledFor id := by
  rw [calledFor, calledFor]
  show ((w.hooks.put wh.id wh).get? id).bind _ = _
  rw [Bucket.get?_put_ne _ _ hne]

/-- A status over the configuration that is stored calls for the same worker. -/
theorem calledFor_touch {wh : Webhook} (hfresh : w.fresh wh .touch = true) (id : String) :
    (w.putWebhook wh .touch).calledFor id = w.calledFor id := by
  by_cases hid : id = wh.id
  · obtain ⟨cur, hcur, hconfig⟩ := fresh_iff.mp hfresh
    have hset : wh.toWebhookConfig = cur.toWebhookConfig := hconfig
    rw [calledFor, calledFor, hid, hcur]
    show ((w.hooks.put wh.id wh).get? wh.id).bind _ = _
    rw [Bucket.get?_put_self, Option.bind_some, Option.bind_some, Webhook.config, hset]
  · exact calledFor_put_ne hid

end HookWorld

namespace HookSys

open HookWorld

variable {stored : StoredHooks} {events : EventStore} {cfg : HookConfig} {s s' : HookSys} {i : Nat}
  {t : HookCall} {x : HookChoice} {w w' : HookWorld} {op : HookOp} {v v' : HookView}

theorem settled_effect (hs : Settled stored s.world) (h : Effect s i op w' v v') :
    Settled stored w' := by
  cases h with
  | quiet hw => exact hw ▸ hs
  | fetched id wh hw => exact hw ▸ hs
  | patched wh old req _ _ _ _ hfresh hw => exact hw ▸ hs.put hfresh
  | tested wh hfresh hw => exact hw ▸ hs.put hfresh
  | deleted id _ _ hw => exact hw ▸ hs.delete id
  | registered wh _ _ hw => exact hw ▸ hs.same (register_records wh)
  | unregistered id _ _ hw => exact hw ▸ hs.same (unregister_records id)

theorem manned_effect (hm : s.world.Manned) (h : Effect s i op w' v v') : w'.Manned := by
  cases h with
  | quiet hw => exact hw ▸ hm
  | fetched id wh hw => exact hw ▸ hm
  | patched wh old req _ _ _ _ _ hw => exact hw ▸ hm
  | tested wh _ hw => exact hw ▸ hm
  | deleted id _ _ hw => exact hw ▸ hm
  | registered wh _ _ hw => exact hw ▸ register_manned hm wh
  | unregistered id _ _ hw => exact hw ▸ unregister_manned hm id

/-! ### Calls -/

/-- What holds of one call's account. -/
structure Honest (w : HookWorld) (op : HookOp) (v : HookView) : Prop where
  read : ∀ id wh, v.read = some (id, wh) → wh.id = id
  asking : v.unsettled ≠ none → op.isChange = true
  wrote : v.wrote = true → ∀ id req, op = .update id req → .wrote id (.patch req) ∈ w.history
  dropped : v.dropped = true → ∀ id, op = .delete id → .deleted id ∈ w.history

theorem honest_empty (w : HookWorld) (op : HookOp) : Honest w op {} where
  read := fun _ _ h => by simp at h
  asking := fun h => absurd rfl h
  wrote := fun h => by simp at h
  dropped := fun h => by simp at h

theorem Honest.grow (h : Honest w op v) (hgrow : ∀ m ∈ w.history, m ∈ w'.history) :
    Honest w' op v where
  read := h.read
  asking := h.asking
  wrote := fun hwrote id req hop => hgrow _ (h.wrote hwrote id req hop)
  dropped := fun hdropped id hop => hgrow _ (h.dropped hdropped id hop)

theorem history_effect (h : Effect s i op w' v v') : ∀ m ∈ s.world.history, m ∈ w'.history := by
  intro m hm
  cases h with
  | quiet hw => exact hw ▸ hm
  | fetched id wh hw => exact hw ▸ hm
  | patched wh old req _ _ _ _ _ hw => exact hw ▸ List.mem_cons_of_mem _ hm
  | tested wh _ hw => exact hw ▸ List.mem_cons_of_mem _ hm
  | deleted id _ _ hw => exact hw ▸ List.mem_cons_of_mem _ hm
  | registered wh _ _ hw =>
      rw [hw, (register_records wh).history]
      exact hm
  | unregistered id _ _ hw =>
      rw [hw, (unregister_records id).history]
      exact hm

theorem honest_effect (hs : Settled stored s.world) (hv : Honest s.world op v)
    (h : Effect s i op w' v v') : Honest w' op v' := by
  have hgrown := hv.grow (history_effect h)
  cases h with
  | quiet _ hv' => exact hv' ▸ hgrown
  | fetched id wh _ hstored hv' =>
      subst hv'
      refine ⟨?_, hgrown.asking, hgrown.wrote, hgrown.dropped⟩
      rintro id' wh' ⟨⟩
      exact hs.keyed _ _ hstored
  | patched wh old req hop hread hid _ _ hw hv' =>
      subst hw hv'
      have hkey : wh.id = op.target := hid.trans (hv.read _ _ hread)
      refine ⟨hgrown.read, fun _ => by rw [hop]; rfl, fun _ id req' hop' => ?_, hgrown.dropped⟩
      rw [hop] at hop'
      obtain ⟨rfl, rfl⟩ := HookOp.update.injEq _ _ _ _ ▸ hop'
      rw [← hkey]
      exact List.mem_cons_self
  | tested _ _ _ hv' => exact hv' ▸ hgrown
  | deleted id hop _ hw hv' =>
      subst hw hv'
      refine ⟨hgrown.read, fun _ => by rw [hop]; rfl, hgrown.wrote, fun _ id' hop' => ?_⟩
      rw [hop] at hop'
      rw [← HookOp.delete.inj hop']
      exact List.mem_cons_self
  | registered wh _ _ _ hv' =>
      subst hv'
      exact ⟨hgrown.read, fun h => absurd rfl h, hgrown.wrote, hgrown.dropped⟩
  | unregistered id _ _ _ hv' =>
      subst hv'
      split_ifs
      · exact ⟨hgrown.read, fun h => absurd rfl h, hgrown.wrote, hgrown.dropped⟩
      · exact hgrown

/-- A webhook that nobody is yet to tell the manager of has the worker that the store calls
for; whoever tells it makes it so, unless another is yet to. -/
theorem running_effect (hs : Settled stored s.world) (hm : s.world.Manned)
    (hv : Honest s.world op v) (h : Effect s i op w' v v') {id : String}
    (hafter : v'.unsettled ≠ some id)
    (hothers : ∀ (j : Nat) (u : HookCall), s.threads[j]? = some u → j ≠ i →
      (view u).unsettled ≠ some id)
    (hbefore : v.unsettled ≠ some id → s.world.running id = s.world.calledFor id) :
    w'.running id = w'.calledFor id := by
  cases h with
  | quiet hw hv' =>
      subst hw hv'
      exact hbefore hafter
  | fetched _ _ hw _ hv' =>
      subst hw hv'
      exact hbefore hafter
  | patched wh _ _ _ _ _ hunsettled _ hw hv' =>
      subst hw hv'
      have hne : id ≠ wh.id := fun heq => hafter (heq ▸ rfl)
      rw [calledFor_put_ne hne]
      exact hbefore (by rw [hunsettled]; simp)
  | tested wh hfresh hw hv' =>
      subst hw hv'
      rw [calledFor_touch hfresh]
      exact hbefore hafter
  | deleted id' _ hunsettled hw hv' =>
      subst hw hv'
      have hne : id ≠ id' := fun heq => hafter (heq ▸ rfl)
      refine (hbefore (by rw [hunsettled]; simp)).trans ?_
      rw [calledFor, calledFor, Bucket.get?_erase_ne _ hne]
  | registered wh hunsettled hwhy hw hv' =>
      subst hw
      rw [(register_records wh).calledFor, register_running hm]
      split_ifs with hid
      · subst hid
        rcases hwhy with heq | ⟨j, u, hu, hji, hun⟩
        · exact heq
        · exact absurd hun (hothers j u hu hji)
      · exact hbefore (by rw [hunsettled]; exact fun heq => hid (Option.some.inj heq).symm)
  | unregistered id' hunsettled hop hw hv' =>
      subst hw hv'
      rw [(unregister_records id').calledFor, unregister_running hm]
      by_cases hid : id = id'
      · subst hid
        by_cases hdropped : v.dropped = true
        · rw [if_pos rfl, calledFor, hs.kept.gone id (hv.dropped hdropped id (hop hdropped))]
          rfl
        · rw [if_neg hdropped] at hafter
          exact absurd hunsettled hafter
      · rw [if_neg hid]
        exact hbefore (by rw [hunsettled]; exact fun heq => hid (Option.some.inj heq).symm)

/-! ### The invariant -/

structure Inv (stored : StoredHooks) (s : HookSys) : Prop where
  sound : s.Sound (fun op log c => op.ok (HookLog.view log) c)
    fun op res log => op.post res (HookLog.view log)
  kept : ∀ t ∈ s.threads, t.lost = false
  requests : ∀ t ∈ s.threads, t.op.isRequest = true
  settled : Settled stored s.world
  manned : s.world.Manned
  honest : ∀ t ∈ s.threads, Honest s.world t.op (view t)
  running : ∀ id, (∀ t ∈ s.threads, (view t).unsettled ≠ some id) →
    s.world.running id = s.world.calledFor id

/-- Registering one webhook after the other, none of them twice. -/
theorem start_running (whs : List Webhook) (w : HookWorld) (hm : w.Manned) :
    SameRecords w (whs.foldl HookWorld.register w) ∧ (whs.foldl HookWorld.register w).Manned ∧
      ((∀ wh ∈ whs, w.hooks.get? wh.id = some wh) →
        (∀ id, w.running id = none ∨ w.running id = w.calledFor id) → ∀ id,
          (whs.foldl HookWorld.register w).running id =
            if id ∈ whs.map Webhook.id then w.calledFor id else w.running id) := by
  induction whs generalizing w with
  | nil => exact ⟨⟨rfl, rfl⟩, hm, fun _ _ id => by simp⟩
  | cons wh whs ih =>
      obtain ⟨hrec, hman, hrun⟩ := ih (w.register wh) (register_manned hm wh)
      have hsame := register_records (w := w) wh
      refine ⟨⟨hrec.hooks.trans hsame.hooks, hrec.history.trans hsame.history⟩, hman,
        fun hall hstart id => ?_⟩
      have hself : w.calledFor wh.id = if wh.active then some wh.config else none := by
        rw [calledFor, hall wh List.mem_cons_self, Option.bind_some]
      have hone : ∀ id, (w.register wh).running id =
          if id = wh.id then w.calledFor id else w.running id := by
        intro id
        rw [register_running hm]
        split_ifs with hid
        · rw [hid, afterRegister, ← hself]
          rcases hstart wh.id with hnone | hcalled
          · rw [hnone, Option.none_or]
          · rw [hcalled, Option.or_self]
        · rfl
      rw [List.foldl_cons, hrun ?_ ?_ id, hsame.calledFor, hone id, List.map_cons]
      · by_cases hid : id = wh.id
        · have hin : id ∈ wh.id :: whs.map Webhook.id := hid ▸ List.mem_cons_self
          rw [if_pos hin, if_pos hid, ite_self]
        · rw [if_neg hid]
          simp [hid]
      · intro wh' hwh'
        rw [hsame.hooks]
        exact hall wh' (List.mem_cons_of_mem _ hwh')
      · intro id'
        rw [hone id', hsame.calledFor]
        split_ifs
        · exact .inr rfl
        · exact hstart id'

theorem inv_init (stored : StoredHooks) (events : EventStore) : Inv stored (init stored events) := by
  have hempty : ({ hooks := stored.hooks, bus := BusSys.init events } : HookWorld).Manned := by
    intro id k
    simp [cores]
  obtain ⟨hrec, hman, hrun⟩ := start_running stored.hooks.values _ hempty
  refine ⟨fun t ht => absurd ht List.not_mem_nil, fun t ht => absurd ht List.not_mem_nil,
    fun t ht => absurd ht List.not_mem_nil, ?_, hman, fun t ht => absurd ht List.not_mem_nil,
    fun id _ => ?_⟩
  · exact Settled.same ⟨stored.keyed, Records.kept_init _⟩ hrec
  · have hvalues : ∀ wh ∈ stored.hooks.values, stored.hooks.get? wh.id = some wh := by
      intro wh hwh
      obtain ⟨id', hid'⟩ := Bucket.mem_values.mp hwh
      rw [stored.keyed id' wh hid']
      exact hid'
    refine (hrun hvalues (fun _ => .inl rfl) id).trans ?_
    refine Eq.trans ?_ (hrec.calledFor id).symm
    split_ifs with hmem
    · rfl
    · show none = (stored.hooks.get? id).bind _
      cases hget : stored.hooks.get? id with
      | none => rfl
      | some wh =>
          have hwh := Bucket.mem_values.mpr ⟨id, hget⟩
          exact absurd (stored.keyed id wh hget ▸ List.mem_map_of_mem hwh) hmem

/-- A new call has been answered nothing. -/
theorem inv_call (hs : Inv stored s) {op : HookOp} (hclear : Clear s (.call op))
    (h : step cfg s (.call op) = some s') : Inv stored s' := by
  have hsound := Pool.sound_step (fun op => hookOp_alone op) hs.sound h
  obtain rfl := Option.some.inj h
  have hnew : ∀ t ∈ (s.add op op.body).threads, t ∈ s.threads ∨
      t = { op := op, prog := op.body, beside := s.inFlight } := by
    intro t ht
    rcases List.mem_append.mp ht with hold | hnew
    · exact .inl hold
    · exact .inr (List.mem_singleton.mp hnew)
  refine ⟨hsound, fun t ht => ?_, fun t ht => ?_, hs.settled, hs.manned, fun t ht => ?_,
    fun id hid => ?_⟩
  · rcases hnew t ht with hold | rfl
    · exact hs.kept t hold
    · rfl
  · rcases hnew t ht with hold | rfl
    · exact hs.requests t hold
    · exact hclear
  · rcases hnew t ht with hold | rfl
    · exact hs.honest t hold
    · exact honest_empty _ _
  · exact hs.running id fun t ht => hid t (List.mem_append_left _ ht)

theorem inv_answer (hs : Inv stored s) (hclear : Clear s (.step i x))
    (h : step cfg s (.step i x) = some s') : Inv stored s' := by
  have hsound := Pool.sound_step (fun op => hookOp_alone op) hs.sound h
  obtain ⟨t, c, k, r, w', ht, -, hprog, hexec, rfl⟩ := Pool.step_step h
  have hmem := List.mem_of_getElem? ht
  have hclear : admits s i x c = true := by
    have := hclear t ht
    rwa [clear, hprog] at this
  have heffect : Effect s i t.op w' (view t) ((view t).add c r) :=
    effect (hs.requests t hmem) (hs.sound.allowed ht hprog) hclear hexec
  have hview : view (t.advance c r (k r)) = (view t).add c r := rfl
  have hget : (s.threads.set i (t.advance c r (k r)))[i]? = some (t.advance c r (k r)) :=
    List.getElem?_set_self (List.getElem?_eq_some_iff.mp ht).1
  have hset : ∀ u ∈ s.threads.set i (t.advance c r (k r)), u ∈ s.threads ∨ u = t.advance c r (k r) :=
    fun u hu => List.mem_or_eq_of_mem_set hu
  refine ⟨hsound, fun u hu => ?_, fun u hu => ?_, settled_effect hs.settled heffect,
    manned_effect hs.manned heffect, fun u hu => ?_, fun id hid => ?_⟩
  · rcases hset u hu with hold | rfl
    · exact hs.kept u hold
    · exact hs.kept t hmem
  · rcases hset u hu with hold | rfl
    · exact hs.requests u hold
    · exact hs.requests t hmem
  · rcases hset u hu with hold | rfl
    · exact (hs.honest u hold).grow (history_effect heffect)
    · rw [hview]
      exact honest_effect hs.settled (hs.honest t hmem) heffect
  · have hothers : ∀ (j : Nat) (u : HookCall), s.threads[j]? = some u → j ≠ i →
        (view u).unsettled ≠ some id := by
      intro j u hu hji
      have hu' : (s.threads.set i (t.advance c r (k r)))[j]? = some u := by
        rw [List.getElem?_set_ne (Ne.symm hji)]
        exact hu
      exact hid u (List.mem_of_getElem? hu')
    refine running_effect hs.settled hs.manned (hs.honest t hmem) heffect ?_ hothers
      fun hbefore => ?_
    · rw [← hview]
      exact hid _ (List.mem_of_getElem? hget)
    · refine hs.running id fun u hu => ?_
      obtain ⟨j, hj⟩ := List.getElem?_of_mem hu
      by_cases hji : j = i
      · subst hji
        rw [ht] at hj
        exact Option.some.inj hj ▸ hbefore
      · exact hothers j u hj hji

/-- A step of the bus or of a worker touches no configuration. -/
theorem inv_move (hs : Inv stored s) {e : HookMove} (hclear : Clear s (.env e))
    (h : step cfg s (.env e) = some s') : Inv stored s' := by
  have hsound := Pool.sound_step (fun op => hookOp_alone op) hs.sound h
  obtain ⟨w', hmove, rfl⟩ := Pool.step_env h
  have hkeep : SameWorkers s.world w' → Settled stored w' →
      (∀ m ∈ s.world.history, m ∈ w'.history) → (∀ id, w'.calledFor id = s.world.calledFor id) →
      Inv stored { s with world := w' } := by
    intro hworkers hsettled hgrow hcalled
    refine ⟨hsound, hs.kept, hs.requests, hsettled, hworkers.manned hs.manned,
      fun t ht => (hs.honest t ht).grow hgrow, fun id hid => ?_⟩
    exact (hworkers.running id).trans ((hs.running id hid).trans (hcalled id).symm)
  rcases move_cases hmove with ⟨l, bus, rfl, -, -, rfl⟩ | ⟨k, m, worker, rfl, hk, hworker⟩
  · exact hkeep ⟨rfl, rfl⟩ (hs.settled.same ⟨rfl, rfl⟩) (fun m hm => hm) fun id => rfl
  · obtain ⟨hworkers, hsame | ⟨wh, hid, hconfig, hhooks, hhistory, now, hm⟩⟩ :=
      workerStep_same hk hworker
    · exact hkeep hworkers (hs.settled.same hsame) (fun m hm => hsame.history ▸ hm) hsame.calledFor
    · have hfresh : s.world.fresh wh .touch = true := by
        have hclear : s.world.workers[k]?.all fun worker => s.world.fresh worker.hook .touch := by
          rcases hm with rfl | rfl <;> exact hclear
        rw [hk, Option.all_some, fresh_iff] at hclear
        rw [fresh_iff, hid, hconfig]
        exact hclear
      have hput : SameRecords (s.world.putWebhook wh .touch) w' := ⟨hhooks, hhistory⟩
      refine hkeep hworkers ((hs.settled.put hfresh).same hput) (fun m hm => ?_) fun id => ?_
      · rw [hhistory]
        exact List.mem_cons_of_mem _ hm
      · rw [hput.calledFor, calledFor_touch hfresh]

theorem inv_step (s : HookSys) (l : HookLabel) (s' : HookSys) (hs : Inv stored s)
    (hclear : Clear s l) (h : step cfg s l = some s') : Inv stored s' := by
  cases l with
  | call op => exact inv_call hs hclear h
  | step i x => exact inv_answer hs hclear h
  | env e => exact inv_move hs hclear h
  | restart op => exact hclear.elim

def allEvents : Webhook where
  id := "wh-1"
  url := "https://old.example/hook"
  secret := "s3cret"

/-- A store with one webhook, for every event. -/
def oneHook : StoredHooks where
  hooks := Bucket.empty.put "wh-1" allEvents
  keyed := by
    intro id wh hwh
    rcases Bucket.mem_put hwh with ⟨rfl, rfl⟩ | ⟨-, hold⟩
    · rfl
    · simp at hold

def noEvents : EventStore := ⟨0, Bucket.empty⟩

/-- An event goes over the bus to worker `k`, who posts it and is answered with a status. -/
def posted (key k status : Nat) : List HookLabel :=
  [.env (.bus (.process true 6)), .env (.bus (.snapshot [key])), .env (.bus .send),
    .env (.worker k .take), .env (.worker k .enqueue), .env (.worker k .dequeue),
    .env (.worker k (.validate none)), .env (.worker k (.send none status))]

end HookSys

end VMSmith
