/-
What a request about a webhook does, whatever it is answered, and what a step of a worker
can be.

A change writes or deletes the record it has read and then tells the manager; a test
writes the record it has read back, with another status.
-/
import VMSmith.Webhooks.WebhookSys

namespace VMSmith

open Prog

namespace HookOp

/-- Which commands a call may issue, after what it has been answered. -/
def ok (op : HookOp) (v : HookView) : HookCmd → Prop
  | .putWebhook wh why => v.unsettled = none ∧
      ∃ old, v.read = some (op.target, old) ∧ wh.id = old.id ∧
        ∀ req, why = .patch req → op = .update op.target req
  | .deleteWebhook id => op = .delete id ∧ v.unsettled = none
  | .register wh => op.isRequest = true → v.unsettled = some wh.id
  | .unregister id => op.isRequest = true → v.unsettled = some id ∧
      (v.dropped = true → op = .delete id)
  | _ => True

/-- How a call ends. -/
def post (op : HookOp) (res : Except Err Unit) (v : HookView) : Prop :=
  v.unsettled = none ∧
    (∀ id req, op = .update id req → res = .ok () →
      v.wrote = true ∨ ∃ old, v.read = some (id, old) ∧ req.apply old.config = old.config) ∧
    ∀ id, op = .delete id → res = .ok () → v.dropped = true

end HookOp

/-- A call by its account. -/
abbrev hookSem (op : HookOp) : Sem HookCmd HookCmd.Resp HookView := Sem.account HookView.add op.ok

theorem wp_updateWebhook (id : String) (req : WebhookUpdateSpec) :
    wp (hookSem (.update id req)) (Api.updateWebhook id req) (fun r v => v.unsettled = none ∧
      ∀ wh, r = .ok wh → v.wrote = true ∨
        ∃ old, v.read = some (id, old) ∧ req.apply old.config = old.config) {} := by
  unfold Api.updateWebhook
  have hfail : ∀ {e : Err} {v : HookView}, v.unsettled = none →
      wp (hookSem (.update id req)) (.throw e : HookM Webhook) (fun r v => v.unsettled = none ∧
        ∀ wh, r = .ok wh → v.wrote = true ∨
          ∃ old, v.read = some (id, old) ∧ req.apply old.config = old.config) v :=
    fun h => (wp_throw _ _ _).mpr ⟨h, fun wh hwh => by simp at hwh⟩
  refine wp_account_call.mpr ⟨trivial, ?_⟩
  rintro (e | current)
  · exact hfail rfl
  show wp _ (Prog.ofExcept (Api.patchWebhook current req) >>= _) _ _
  cases hpatch : Api.patchWebhook current req with
  | error e => exact hfail rfl
  | ok updated =>
      obtain ⟨hid, hconfig⟩ := Api.patchWebhook_ok hpatch
      show wp _ (ite (updated = current) _ _) _ _
      split_ifs with hsame
      · refine (wp_ret _ _ _).mpr ⟨rfl, fun _ _ => .inr ⟨current, rfl, ?_⟩⟩
        rw [← hconfig, hsame]
      · refine wp_account_call.mpr ⟨⟨rfl, current, rfl, hid, ?_⟩, ?_⟩
        · rintro req' ⟨⟩
          rfl
        · rintro (e | u)
          · exact hfail rfl
          · refine wp_account_call.mpr ⟨fun _ => ⟨rfl, fun h => by simp [HookView.add] at h⟩, fun _ => ?_⟩
            refine wp_account_call.mpr ⟨fun _ => rfl, fun _ => ?_⟩
            exact (wp_ret _ _ _).mpr ⟨rfl, fun _ _ => .inl rfl⟩

theorem wp_deleteWebhook (id : String) :
    wp (hookSem (.delete id)) (Api.deleteWebhook id) (fun r v => v.unsettled = none ∧
      (r = .ok () → v.dropped = true)) {} := by
  unfold Api.deleteWebhook
  refine wp_account_call.mpr ⟨trivial, ?_⟩
  rintro (e | wh)
  · exact (wp_throw _ _ _).mpr ⟨rfl, fun h => by simp at h⟩
  refine wp_account_call.mpr ⟨⟨rfl, rfl⟩, ?_⟩
  rintro (e | u)
  · exact (wp_throw _ _ _).mpr ⟨rfl, fun h => by simp at h⟩
  · refine wp_account_call.mpr ⟨fun _ => ⟨rfl, fun _ => rfl⟩, fun _ => ?_⟩
    exact (wp_ret _ _ _).mpr ⟨rfl, fun _ => rfl⟩

theorem wp_recordExternalDeliveryResult {id : String} {hook : Webhook} (result : WebhookTestResult)
    {v : HookView} (hread : v.read = some (id, hook)) (hsettled : v.unsettled = none) :
    wp (hookSem (.test id)) (Api.recordExternalDeliveryResult hook result)
      (fun r v => r = .ok () ∧ v.unsettled = none) v := by
  unfold Api.recordExternalDeliveryResult
  refine wp_account_call.mpr ⟨⟨hsettled, hook, hread, rfl, fun req h => by simp at h⟩, ?_⟩
  rintro (e | u)
  · exact (wp_ret _ _ _).mpr ⟨rfl, hsettled⟩
  · exact (wp_ret _ _ _).mpr ⟨rfl, hsettled⟩

theorem wp_testDeliver (id : String) :
    wp (hookSem (.test id)) (Api.testDeliver id) (fun _ v => v.unsettled = none) {} := by
  unfold Api.testDeliver
  refine wp_account_call.mpr ⟨trivial, ?_⟩
  rintro (e | hook)
  · exact (wp_throw _ _ _).mpr rfl
  refine wp_account_call.mpr ⟨trivial, fun now => ?_⟩
  refine wp_account_call.mpr ⟨trivial, fun attemptedAt => ?_⟩
  refine wp_account_call.mpr ⟨trivial, ?_⟩
  have hrecord : ∀ result : WebhookTestResult, wp (hookSem (.test id))
      (Api.recordExternalDeliveryResult hook result >>= fun _ => pure result)
      (fun _ v => v.unsettled = none) { read := some (id, hook) } := by
    intro result
    rw [bind_eq, wp_bind]
    refine wp_mono (fun r v hr => ?_) (wp_recordExternalDeliveryResult result rfl rfl)
    obtain ⟨rfl, hv⟩ := hr
    exact (wp_ret _ _ _).mpr hv
  rintro (_ | e)
  · refine wp_account_call.mpr ⟨trivial, fun start => ?_⟩
    refine wp_account_call.mpr ⟨trivial, fun answer => ?_⟩
    refine wp_account_call.mpr ⟨trivial, fun finish => ?_⟩
    exact hrecord _
  · exact hrecord _

/-- **Every call is in order**, whatever it is answered. -/
theorem hookOp_wp (op : HookOp) : wp (hookSem op) op.body op.post {} := by
  cases op with
  | update id req =>
      refine wp_bind.mpr (wp_mono (fun r v hr => ?_) (wp_updateWebhook id req))
      cases r with
      | error e => exact ⟨hr.1, fun _ _ _ h => by simp at h, fun _ h => by simp at h⟩
      | ok wh =>
          refine (wp_ret _ _ _).mpr ⟨hr.1, ?_, fun _ h => by simp at h⟩
          rintro id' req' ⟨⟩ -
          exact hr.2 wh rfl
  | delete id =>
      refine wp_mono (fun r v hr => ?_) (wp_deleteWebhook id)
      exact ⟨hr.1, fun _ _ h => by simp at h, fun _ _ hok => hr.2 hok⟩
  | test id =>
      refine wp_bind.mpr (wp_mono (fun r v hr => ?_) (wp_testDeliver id))
      have hpost : ∀ res, HookOp.post (.test id) res v :=
        fun res => ⟨hr, fun _ _ h => by simp at h, fun _ h => by simp at h⟩
      cases r with
      | error e => exact hpost _
      | ok result => exact (wp_ret _ _ _).mpr (hpost _)
  | register wh =>
      refine wp_account_call.mpr ⟨fun h => by simp [HookOp.isRequest] at h, fun _ => ?_⟩
      exact (wp_ret _ _ _).mpr ⟨rfl, fun _ _ h => by simp at h, fun _ h => by simp at h⟩
  | unregister id =>
      refine wp_account_call.mpr ⟨fun h => by simp [HookOp.isRequest] at h, fun _ => ?_⟩
      exact (wp_ret _ _ _).mpr ⟨rfl, fun _ _ h => by simp at h, fun _ h => by simp at h⟩

/-- A call alone, by its log. -/
theorem hookOp_alone (op : HookOp) : wp (Sem.alone fun log c => op.ok (HookLog.view log) c) op.body
    (fun res log => op.post res (HookLog.view log)) [] :=
  wp_alone_of_account (hookOp_wp op)

/-! ### A worker's steps -/

/-- What a step of worker `k` makes of the world. -/
inductive WorkerStep (cfg : HookConfig) (w : HookWorld) (k : Nat) (worker : Worker) :
    WorkerMove → HookWorld → Prop
  | take (evt : Event) (rest : List Event) (bus : BusSys) (hreader : worker.reader = .idle)
      (hchannel : w.bus.channel worker.sub = evt :: rest)
      (hbus : w.bus.step (.recv worker.sub) = some bus) :
      WorkerStep cfg w k worker .take ({ w with bus := bus }.setWorker k { worker with
        reader := .holding
          ⟨((w.bus.delivered worker.sub)[w.bus.takenCount worker.sub]?).getD 0, evt⟩ })
  | skipped (p : Parcel) (hreader : worker.reader = .holding p) (hwants : worker.wants p = false) :
      WorkerStep cfg w k worker .enqueue (w.setWorker k { worker with reader := .idle })
  | queued (p : Parcel) (hreader : worker.reader = .holding p) (hwants : worker.wants p = true)
      (hroom : worker.queue.length < queueSize) :
      WorkerStep cfg w k worker .enqueue
        (w.setWorker k { worker with queue := worker.queue ++ [p], reader := .idle })
  | overflowed (p : Parcel) (hreader : worker.reader = .holding p) (hwants : worker.wants p = true) :
      WorkerStep cfg w k worker .enqueue (w.setWorker k { worker with reader := .overflowed p })
  | publishedOverflow (p : Parcel) (now : Nat) (hreader : worker.reader = .overflowed p) :
      WorkerStep cfg w k worker (.publishOverflow now)
        ((w.report k p (worker.overflowEvent p.event now) now).setWorker k { worker with reader := .idle })
  | stoppedReader (hreader : worker.reader = .idle) (hstopped : worker.stopped = true) :
      WorkerStep cfg w k worker .stopReader (w.setWorker k { worker with reader := .ended })
  | dequeued (p : Parcel) (rest : List Parcel) (hdelivery : worker.delivery = .idle)
      (hqueue : worker.queue = p :: rest) :
      WorkerStep cfg w k worker .dequeue
        (w.setWorker k { worker with queue := rest, delivery := .validating p })
  | validated (p : Parcel) (hdelivery : worker.delivery = .validating p) :
      WorkerStep cfg w k worker (.validate none)
        (w.setWorker k { worker with delivery := .sending p 0 })
  | refused (p : Parcel) (message : String) (hdelivery : worker.delivery = .validating p) :
      WorkerStep cfg w k worker (.validate (some message))
        (w.setWorker k { worker with delivery := .failed p message 0 })
  | acknowledged (p : Parcel) (attempt status : Nat) (hdelivery : worker.delivery = .sending p attempt)
      (hstatus : 200 ≤ status ∧ status < 300) :
      WorkerStep cfg w k worker (.send none status)
        ((w.acknowledge k p).setWorker k { worker with delivery := .succeeded status })
  | unanswered (p : Parcel) (attempt : Nat) (failure : Option String) (status : Nat)
      (message : String) (last : Nat) (hdelivery : worker.delivery = .sending p attempt) :
      WorkerStep cfg w k worker (.send failure status)
        (w.setWorker k (HookWorld.retryOrFail cfg worker p attempt message last))
  | timer (p : Parcel) (attempt : Nat) (hdelivery : worker.delivery = .waiting p attempt) :
      WorkerStep cfg w k worker .timer (w.setWorker k { worker with delivery := .sending p attempt })
  | abandoned (p : Parcel) (attempt : Nat) (hdelivery : worker.delivery = .waiting p attempt)
      (hstopped : worker.stopped = true) :
      WorkerStep cfg w k worker .abandon (w.setWorker k { worker with delivery := .idle })
  | recordedSuccess (status now : Nat) (persisted : Bool)
      (hdelivery : worker.delivery = .succeeded status) :
      WorkerStep cfg w k worker (.recordSuccess now persisted)
        ((w.persist persisted (worker.recorded now status "")).setWorker k
          { worker.recorded now status "" with delivery := .idle })
  | recordedFailure (p : Parcel) (message : String) (status now : Nat) (persisted : Bool)
      (hdelivery : worker.delivery = .failed p message status) :
      WorkerStep cfg w k worker (.recordFailure now persisted)
        ((w.persist persisted (worker.recorded now status message)).setWorker k
          { worker.recorded now status message with delivery := .reporting p message status })
  | publishedFailure (p : Parcel) (message : String) (status now : Nat)
      (hdelivery : worker.delivery = .reporting p message status) :
      WorkerStep cfg w k worker (.publishFailure now)
        ((w.report k p (worker.failureEvent p.event message status now) now).setWorker k
          { worker with delivery := .idle })
  | stoppedDelivery (hdelivery : worker.delivery = .idle) (hstopped : worker.stopped = true) :
      WorkerStep cfg w k worker .stopDelivery (w.setWorker k { worker with delivery := .leaving })
  | cancelledSub (hdelivery : worker.delivery = .leaving) :
      WorkerStep cfg w k worker .cancelSub
        ({ w with bus := w.bus.cancel worker.sub }.setWorker k { worker with delivery := .ended })

namespace HookWorld

variable {cfg : HookConfig} {w w' : HookWorld} {k : Nat} {worker : Worker} {m : WorkerMove}

theorem readerStep_cases (h : w.readerStep k worker m = some w') :
    WorkerStep cfg w k worker m w' := by
  unfold readerStep at h
  split at h
  · split at h
    · next evt rest hreader hchannel =>
        obtain ⟨bus, hbus, rfl⟩ := Option.map_eq_some_iff.mp h
        exact .take evt rest bus hreader hchannel hbus
    · simp at h
  · split at h
    · next p hreader =>
        obtain rfl := Option.some.inj h
        by_cases hwants : worker.wants p = true
        · rw [if_pos hwants]
          split_ifs with hroom
          · exact .queued p hreader hwants hroom
          · exact .overflowed p hreader hwants
        · rw [if_neg hwants]
          exact .skipped p hreader (Bool.not_eq_true _ ▸ hwants)
    · simp at h
  · split at h
    · next p hreader =>
        obtain rfl := Option.some.inj h
        exact .publishedOverflow p _ hreader
    · simp at h
  · split_ifs at h with hidle
    obtain rfl := Option.some.inj h
    exact .stoppedReader hidle.1 hidle.2
  · simp at h

theorem deliveryStep_cases (h : w.deliveryStep cfg k worker m = some w') :
    WorkerStep cfg w k worker m w' := by
  unfold deliveryStep at h
  split at h
  · next hdelivery =>
      split at h
      · simp at h
      · next p rest hqueue =>
          obtain rfl := Option.some.inj h
          exact .dequeued p rest hdelivery hqueue
  · next found p hdelivery =>
      obtain rfl := Option.some.inj h
      cases found with
      | none => exact .validated p hdelivery
      | some message => exact .refused p message hdelivery
  · next message status p attempt hdelivery =>
      obtain rfl := Option.some.inj h
      exact .unanswered p attempt (some message) status message 0 hdelivery
  · next status p attempt hdelivery =>
      split_ifs at h with hstatus
      · obtain rfl := Option.some.inj h
        exact .acknowledged p attempt status hdelivery hstatus
      · obtain rfl := Option.some.inj h
        exact .unanswered p attempt none status _ status hdelivery
  · next p attempt hdelivery =>
      obtain rfl := Option.some.inj h
      exact .timer p attempt hdelivery
  · next p attempt hdelivery =>
      split_ifs at h with hstopped
      obtain rfl := Option.some.inj h
      exact .abandoned p attempt hdelivery hstopped
  · next now persisted status hdelivery =>
      obtain rfl := Option.some.inj h
      exact .recordedSuccess status now persisted hdelivery
  · next now persisted p message status hdelivery =>
      obtain rfl := Option.some.inj h
      exact .recordedFailure p message status now persisted hdelivery
  · next now p message status hdelivery =>
      obtain rfl := Option.some.inj h
      exact .publishedFailure p message status now hdelivery
  · next hdelivery =>
      split_ifs at h with hstopped
      obtain rfl := Option.some.inj h
      exact .stoppedDelivery hdelivery hstopped
  · next hdelivery =>
      obtain rfl := Option.some.inj h
      exact .cancelledSub hdelivery
  · simp at h

/-- A move is a step of the bus, or one of a worker's. -/
theorem move_cases {e : HookMove} (h : w.move cfg e = some w') :
    (∃ l bus, e = .bus l ∧ w.foreign l = true ∧ w.bus.step l = some bus ∧ w' = { w with bus := bus }) ∨
      ∃ k m worker, e = .worker k m ∧ w.workers[k]? = some worker ∧ WorkerStep cfg w k worker m w' := by
  cases e with
  | bus l =>
      rw [move] at h
      split_ifs at h with hforeign
      obtain ⟨bus, hbus, rfl⟩ := Option.map_eq_some_iff.mp h
      exact .inl ⟨l, bus, rfl, hforeign, hbus, rfl⟩
  | worker k m =>
      rw [move] at h
      split at h
      · simp at h
      · next worker hworker =>
          refine .inr ⟨k, m, worker, rfl, hworker, ?_⟩
          split_ifs at h
          · exact readerStep_cases h
          · exact deliveryStep_cases h

end HookWorld

end VMSmith
