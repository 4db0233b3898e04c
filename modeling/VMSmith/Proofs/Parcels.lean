/-
Every event on a worker's channel is somewhere.

What was taken off the channel of a worker and matches its filter is with the reader, in
the queue, being delivered, acknowledged or reported on, and each just once; only a worker
that has been told to stop can lose one.  What it has had acknowledged and still can is in
the order of the channel.

None of this depends on a condition on the steps: it holds in every run.
-/
import VMSmith.Proofs.HookCalls
import VMSmith.Proofs.Bus

namespace VMSmith

/-! ### The bus, seen from one channel -/

namespace BusSys

variable {s s' : BusSys} {l : BusLabel} {key : Nat}

/-- The parcels are numbered as they were delivered, … -/
theorem parcels_index (hs : Flow s) (key : Nat) :
    (s.parcels key).map Parcel.index = s.delivered key := by
  have hlt : ∀ i ∈ s.delivered key, i < s.processed.length := fun i hi => hs.delivered_lt hi
  rw [parcels]
  generalize s.delivered key = is at hlt
  induction is with
  | nil => rfl
  | cons i is ih =>
      have hi := List.getElem?_eq_getElem (hlt i List.mem_cons_self)
      rw [List.filterMap_cons, hi, Option.map_some, List.map_cons,
        ih fun j hj => hlt j (List.mem_cons_of_mem _ hj)]

/-- … and are what is or was on the channel. -/
theorem parcels_event (hs : Flow s) (key : Nat) :
    (s.parcels key).map Parcel.event = s.history key := by
  rw [hs.history key, parcels, List.map_filterMap]
  refine List.filterMap_congr fun i _ => ?_
  rw [List.getElem?_map]
  cases s.processed[i]? <;> rfl

theorem mem_parcels {p : Parcel} (h : p ∈ s.parcels key) : p.index ∈ s.delivered key ∧
    s.processed[p.index]?.map Prod.fst = some p.event := by
  obtain ⟨i, hi, hp⟩ := List.mem_filterMap.mp h
  obtain ⟨e, he, rfl⟩ := Option.map_eq_some_iff.mp hp
  exact ⟨hi, by rw [he]; rfl⟩

theorem parcels_rising (hs : Flow s) (key : Nat) :
    (s.parcels key).Pairwise fun p q => p.index < q.index := by
  rw [← List.pairwise_map, parcels_index hs]
  exact hs.rising key

theorem takenCount_le (hs : Flow s) (key : Nat) : s.takenCount key ≤ (s.parcels key).length := by
  rw [← List.length_map Parcel.event, parcels_event hs, history, List.length_append, List.length_map]
  exact Nat.le_add_right _ _

/-- What is still on the channel. -/
theorem parcels_drop (hs : Flow s) (key : Nat) :
    ((s.parcels key).drop (s.takenCount key)).map Parcel.event = s.channel key := by
  rw [List.map_drop, parcels_event hs, history]
  refine List.drop_left' ?_
  rw [List.length_map, takenCount]

/-- Events and offers are only added. -/
theorem step_grows (h : step s l = some s') :
    (∃ more, s'.processed = s.processed ++ more) ∧ ∃ more, s'.offers = s.offers ++ more := by
  have hnone : ∀ {α : Type} (as : List α), ∃ more, as = as ++ more :=
    fun as => ⟨[], (List.append_nil as).symm⟩
  cases step_cases h with
  | published | subscribed | cancelled | took | listed | stopping | exited =>
      exact ⟨hnone _, hnone _⟩
  | stored => exact ⟨⟨_, rfl⟩, hnone _⟩
  | sent => exact ⟨hnone _, _, rfl⟩

/-- The publish channel only accepts more. -/
theorem step_accepted (h : step s l = some s') : ∃ more, s'.accepted = s.accepted ++ more := by
  cases step_cases h with
  | published => exact ⟨_, rfl⟩
  | subscribed | cancelled | took | stored | listed | sent | stopping | exited =>
      exact ⟨[], (List.append_nil _).symm⟩

/-- What was put on a channel stays what it is. -/
theorem step_parcels (hs : Flow s) (h : step s l = some s') (key : Nat) :
    ∃ more, s'.parcels key = s.parcels key ++ more := by
  obtain ⟨⟨es, hes⟩, os, hos⟩ := step_grows h
  rw [parcels, parcels, delivered, hos, List.filter_append, List.map_append, List.filterMap_append]
  refine ⟨_, congrArg (· ++ _) ?_⟩
  refine List.filterMap_congr fun i hi => ?_
  rw [hes, List.getElem?_append_left (hs.delivered_lt hi)]

/-- Only the subscriber and its cancel function take anything off. -/
theorem step_taken (h : step s l = some s') (hrecv : l ≠ .recv key) (hdrain : l ≠ .drain key) :
    s'.takenCount key = s.takenCount key := by
  cases step_cases h with
  | took l k received evt rest hl hchannel =>
      have hne : k ≠ key := by
        rintro rfl
        rcases hl with rfl | ⟨rfl, -⟩
        · exact hrecv rfl
        · exact hdrain rfl
      simp [takenCount, hne]
  | published | subscribed | cancelled | stored | listed | sent | stopping | exited => rfl

/-- One event off a channel. -/
theorem take_parcels {received : Bool} (h : s.take key received = some s') :
    s'.takenCount key = s.takenCount key + 1 ∧ s'.parcels key = s.parcels key := by
  obtain ⟨evt, rest, -, rfl⟩ := take_cases h
  refine ⟨?_, rfl⟩
  simp [takenCount]

/-- The keys given out so far. -/
structure Keyed (s : BusSys) : Prop where
  offers : ∀ o ∈ s.offers, o.key ≤ s.bus.subSeq
  taken : ∀ t ∈ s.taken, t.key ≤ s.bus.subSeq

theorem keyed_init (store : EventStore) : Keyed (init store) where
  offers := fun _ ho => absurd ho List.not_mem_nil
  taken := fun _ ht => absurd ht List.not_mem_nil

/-- Who has a channel has had its key given out. -/
theorem channel_known (hs : Flow s) {evt : Event} {rest : List Event}
    (h : s.channel key = evt :: rest) : key ≤ s.bus.subSeq := by
  refine hs.counted key ?_
  by_contra hmem
  rw [channel, channelIn_of_not_mem hmem] at h
  simp at h

theorem keyed_step (hs : Flow s) (hk : Keyed s) (h : step s l = some s') :
    Keyed s' ∧ s.bus.subSeq ≤ s'.bus.subSeq := by
  cases step_cases h with
  | published | cancelled | stored | listed | stopping | exited =>
      exact ⟨⟨hk.offers, hk.taken⟩, le_rfl⟩
  | subscribed =>
      exact ⟨⟨fun o ho => Nat.le_succ_of_le (hk.offers o ho),
        fun t ht => Nat.le_succ_of_le (hk.taken t ht)⟩, Nat.le_succ _⟩
  | took _ k received evt rest _ hchannel =>
      have hkey : k ≤ s.bus.subSeq := channel_known hs hchannel
      refine ⟨⟨hk.offers, fun t ht => ?_⟩, le_rfl⟩
      rcases List.mem_append.mp ht with hold | hnew
      · exact hk.taken t hold
      · rw [List.mem_singleton.mp hnew]
        exact hkey
  | sent evt k keys hpc =>
      refine ⟨⟨fun o ho => ?_, hk.taken⟩, le_rfl⟩
      rcases List.mem_append.mp ho with hold | hnew
      · exact hk.offers o hold
      · rw [List.mem_singleton.mp hnew]
        exact hs.counted k (hs.known k (by rw [hpc]; exact List.mem_cons_self))

/-- A subscription ends only when it is cancelled. -/
theorem step_subscribers (h : step s l = some s') (hl : l ≠ .cancel key)
    (hmem : key ∈ s.bus.subscribers.map Subscriber.key) :
    key ∈ s'.bus.subscribers.map Subscriber.key := by
  cases step_cases h with
  | published | stored | listed | stopping | exited => exact hmem
  | subscribed =>
      show key ∈ (s.bus.subscribers ++ [_]).map Subscriber.key
      rw [List.map_append]
      exact List.mem_append_left _ hmem
  | cancelled k =>
      obtain ⟨sub, hsub, rfl⟩ := List.mem_map.mp hmem
      refine List.mem_map_of_mem (List.mem_filter.mpr ⟨hsub, ?_⟩)
      have hne : sub.key ≠ k := fun heq => hl (by rw [heq])
      simpa using hne
  | took _ k received evt rest =>
      show key ∈ (modifyIn s.bus.subscribers k fun _ => rest).map Subscriber.key
      rw [modifyIn_keys]
      exact hmem
  | sent evt k =>
      show key ∈ (modifyIn s.bus.subscribers k (EventBus.offer evt)).map Subscriber.key
      rw [modifyIn_keys]
      exact hmem

/-- What the cancel function drains is no subscriber's any more. -/
theorem drain_detached (hs : Flow s) (h : step s (.drain key) = some s') :
    key ∉ s.bus.subscribers.map Subscriber.key := by
  simp only [step] at h
  split_ifs at h with hany
  obtain ⟨sub, hsub, hkey⟩ := List.any_eq_true.mp hany
  obtain rfl : sub.key = key := by simpa using hkey
  have hnodup := hs.nodup
  rw [everybody, List.map_append] at hnodup
  exact fun hmem => (List.disjoint_of_nodup_append hnodup) hmem (List.mem_map_of_mem hsub)

/-- What has been taken off a channel. -/
def takenParcels (s : BusSys) (key : Nat) : List Parcel := (s.parcels key).take (s.takenCount key)

theorem takenParcels_step (hs : Flow s) (h : step s l = some s') (hrecv : l ≠ .recv key) :
    s'.takenParcels key = s.takenParcels key ∨
      l = .drain key ∧ ∃ more, s'.takenParcels key = s.takenParcels key ++ more := by
  by_cases hdrain : l = .drain key
  · subst hdrain
    simp only [step] at h
    split_ifs at h
    obtain ⟨hcount, hparcels⟩ := take_parcels h
    refine .inr ⟨rfl, ((s.parcels key)[s.takenCount key]?).toList, ?_⟩
    rw [takenParcels, hcount, hparcels, List.take_add_one]
    rfl
  · obtain ⟨more, hmore⟩ := step_parcels hs h key
    left
    rw [takenParcels, takenParcels, step_taken h hrecv hdrain, hmore,
      List.take_append_of_le_length (takenCount_le hs key)]

/-- The event received is the next of those delivered. -/
theorem takenParcels_recv (hs : Flow s) {evt : Event} {rest : List Event}
    (hchannel : s.channel key = evt :: rest) (h : step s (.recv key) = some s') :
    s'.takenParcels key = s.takenParcels key ++
      [⟨((s.delivered key)[s.takenCount key]?).getD 0, evt⟩] := by
  obtain ⟨hcount, hparcels⟩ := take_parcels h
  have hdrop := parcels_drop hs key
  rw [hchannel] at hdrop
  obtain ⟨p, ps, hp, hevt, -⟩ := List.map_eq_cons_iff.mp hdrop
  have hget : (s.parcels key)[s.takenCount key]? = some p := by
    have := congrArg (·[0]?) hp
    simpa using this
  have hindex : (s.delivered key)[s.takenCount key]? = some p.index := by
    rw [← parcels_index hs, List.getElem?_map, hget]
    rfl
  rw [takenParcels, hcount, hparcels, List.take_add_one, hget, hindex, ← hevt]
  rfl

end BusSys

/-! ### A worker's parcels -/

/-- What the delivery loop is trying to deliver. -/
def DeliveryPC.attempted : DeliveryPC → List Parcel
  | .validating p | .sending p _ | .waiting p _ => [p]
  | _ => []

/-- What has failed and is not reported yet. -/
def DeliveryPC.failing : DeliveryPC → List Parcel
  | .failed p _ _ | .reporting p _ _ => [p]
  | _ => []

/-- What the reader has, if it is wanted. -/
def ReaderPC.wanted (hook : Webhook) : ReaderPC → List Parcel
  | .holding p => [p].filter fun p => hook.matchesType p.event.type
  | .overflowed p => [p]
  | _ => []

/-- What may still be delivered, in its order. -/
def Worker.inLine (w : Worker) : List Parcel :=
  w.delivery.attempted ++ w.queue ++ w.reader.wanted w.hook

def Worker.pending (w : Worker) : List Parcel := w.delivery.failing ++ w.inLine

namespace HookWorld

/-- What worker `k` has had acknowledged, in order. -/
def acksOf (w : HookWorld) (k : Nat) : List Parcel :=
  (w.acks.filter fun a => a.worker = k).map Ack.parcel

/-- What worker `k` has published a report on. -/
def reportsOf (w : HookWorld) (k : Nat) : List Parcel :=
  (w.reports.filter fun r => r.worker = k).map Report.cause

end HookWorld

/-- Where what a worker has taken off its channel is. -/
structure Tracked (taken acked reported : List Parcel) (worker : Worker) : Prop where
  accounted : ∃ lost : List Parcel, (∀ p, acked.count p + reported.count p +
    worker.pending.count p + lost.count p = (taken.filter worker.wants).count p) ∧
      (worker.stopped = false → lost = [])
  ordered : (acked ++ worker.inLine).Sublist taken

namespace Tracked

variable {taken acked reported : List Parcel} {worker worker' : Worker}

/-- A worker that has been told to stop may lose what is on its channel. -/
theorem drained (h : Tracked taken acked reported worker) (hstopped : worker.stopped = true)
    (more : List Parcel) : Tracked (taken ++ more) acked reported worker := by
  obtain ⟨lost, hcount, -⟩ := h.accounted
  refine ⟨⟨lost ++ more.filter worker.wants, fun p => ?_, fun hno => ?_⟩,
    h.ordered.trans (List.sublist_append_left _ _)⟩
  · have := hcount p
    rw [List.filter_append, List.count_append, List.count_append]
    omega
  · rw [hstopped] at hno
    simp at hno

/-- Nothing has come to a new worker yet. -/
theorem fresh (hpending : worker.pending = []) : Tracked [] [] [] worker := by
  refine ⟨⟨[], fun p => by rw [hpending]; rfl, fun _ => rfl⟩, ?_⟩
  obtain ⟨-, hline⟩ := List.append_eq_nil_iff.mp hpending
  rw [hline]
  exact List.Sublist.refl _

/-- A worker with the same parcels in the same places. -/
theorem same (h : Tracked taken acked reported worker)
    (hwants : ∀ p, worker'.wants p = worker.wants p) (hstopped : worker'.stopped = worker.stopped)
    (hfailing : worker'.delivery.failing = worker.delivery.failing) (hline : worker'.inLine = worker.inLine) :
    Tracked taken acked reported worker' := by
  obtain ⟨lost, hcount, hlost⟩ := h.accounted
  have hpending : worker'.pending = worker.pending := by
    rw [Worker.pending, Worker.pending, hfailing, hline]
  refine ⟨⟨lost, fun p => ?_, fun hno => hlost (hstopped ▸ hno)⟩, hline ▸ h.ordered⟩
  rw [hpending, show worker'.wants = worker.wants from funext hwants]
  exact hcount p

end Tracked

/-- What holds of the bus, the workers and their parcels in every run. -/
structure Flowing (w : HookWorld) : Prop where
  flow : BusSys.Flow w.bus
  keyed : BusSys.Keyed w.bus
  subs : (w.workers.map Worker.sub).Nodup
  known : ∀ worker ∈ w.workers, worker.sub ≤ w.bus.bus.subSeq
  subscribed : ∀ worker ∈ w.workers, worker.stopped = false →
    worker.sub ∈ w.bus.bus.subscribers.map Subscriber.key
  leaving : ∀ worker ∈ w.workers, worker.delivery = .leaving → worker.stopped = true
  acks : ∀ a ∈ w.acks, a.worker < w.workers.length
  reports : ∀ r ∈ w.reports, r.worker < w.workers.length
  tracked : ∀ (k : Nat) (worker : Worker), w.workers[k]? = some worker →
    Tracked (w.bus.takenParcels worker.sub) (w.acksOf k) (w.reportsOf k) worker

theorem map_set_same {α β : Type} {f : α → β} {l : List α} {k : Nat} {a a' : α} (hk : l[k]? = some a)
    (h : f a' = f a) : (l.set k a').map f = l.map f := by
  refine List.ext_getElem? fun j => ?_
  rw [List.getElem?_map, List.getElem?_map]
  by_cases hkj : k = j
  · subst hkj
    rw [List.getElem?_set_self (List.getElem?_eq_some_iff.mp hk).1, hk, Option.map_some, Option.map_some,
      h]
  · rw [List.getElem?_set_ne hkj]

namespace Flowing

variable {cfg : HookConfig} {w w' : HookWorld} {k : Nat} {worker worker' : Worker}

/-- The records of the store do not matter. -/
theorem congr (h : Flowing w) (hbus : w'.bus = w.bus) (hworkers : w'.workers = w.workers)
    (hacks : w'.acks = w.acks) (hreports : w'.reports = w.reports) : Flowing w' := by
  constructor
  · exact hbus ▸ h.flow
  · exact hbus ▸ h.keyed
  · exact hworkers ▸ h.subs
  · rw [hworkers, hbus]
    exact h.known
  · rw [hworkers, hbus]
    exact h.subscribed
  · exact hworkers ▸ h.leaving
  · rw [hacks, hworkers]
    exact h.acks
  · rw [hreports, hworkers]
    exact h.reports
  · intro k worker hk
    rw [hbus, HookWorld.acksOf, HookWorld.reportsOf, hacks, hreports]
    exact h.tracked k worker (hworkers ▸ hk)

/-- Two workers never share a subscription. -/
theorem sub_inj (h : Flowing w) {j : Nat} {a b : Worker} (ha : w.workers[j]? = some a)
    (hb : w.workers[k]? = some b) (hsub : a.sub = b.sub) : j = k := by
  have hj : (w.workers.map Worker.sub)[j]? = some a.sub := by rw [List.getElem?_map, ha]; rfl
  have hk : (w.workers.map Worker.sub)[k]? = some a.sub := by rw [List.getElem?_map, hb, hsub]; rfl
  exact (List.getElem?_inj (List.getElem?_eq_some_iff.mp hj).1 h.subs).mp (hj.trans hk.symm)

/-- A step of the bus that takes nothing off a worker's channel and ends no running
worker's subscription. -/
theorem bus (h : Flowing w) {l : BusLabel} {bus : BusSys} (hbus : w.bus.step l = some bus)
    (hrecv : ∀ worker ∈ w.workers, l ≠ .recv worker.sub)
    (hcancel : ∀ worker ∈ w.workers, worker.stopped = false → l ≠ .cancel worker.sub) :
    Flowing { w with bus := bus } := by
  obtain ⟨hkeyed, hseq⟩ := BusSys.keyed_step h.flow h.keyed hbus
  refine { h with
    flow := BusSys.flow_step h.flow hbus, keyed := hkeyed
    known := fun worker hworker => (h.known worker hworker).trans hseq
    subscribed := fun worker hworker hno => BusSys.step_subscribers hbus
      (hcancel worker hworker hno) (h.subscribed worker hworker hno)
    tracked := fun k worker hk => ?_ }
  have hmem := List.mem_of_getElem? hk
  have htracked := h.tracked k worker hk
  rcases BusSys.takenParcels_step h.flow hbus (hrecv worker hmem) with hsame | ⟨rfl, more, hmore⟩
  · exact hsame ▸ htracked
  · have hstopped : worker.stopped = true := by
      cases hno : worker.stopped with
      | true => rfl
      | false => exact absurd (h.subscribed worker hmem hno) (BusSys.drain_detached h.flow hbus)
    exact hmore ▸ htracked.drained hstopped more

/-- A step of worker `k`: what it does at the bus, and what becomes of its parcels. -/
theorem advance (h : Flowing w) (hk : w.workers[k]? = some worker)
    (hbus : w'.bus = w.bus ∨ ∃ l, w.bus.step l = some w'.bus ∧ (l = .recv worker.sub ∨
      (∃ evt now, l = .publish evt now) ∨ l = .cancel worker.sub ∧ worker.stopped = true))
    (hworkers : w'.workers = w.workers.set k worker')
    (hacks : ∃ new, w'.acks = w.acks ++ new ∧ ∀ a ∈ new, a.worker = k)
    (hreports : ∃ new, w'.reports = w.reports ++ new ∧ ∀ r ∈ new, r.worker = k)
    (hsub : worker'.sub = worker.sub) (hstopped : worker'.stopped = worker.stopped)
    (hleaving : worker'.delivery = .leaving → worker.stopped = true)
    (htracked : Tracked (w'.bus.takenParcels worker.sub) (w'.acksOf k) (w'.reportsOf k) worker') :
    Flowing w' := by
  have hlt := (List.getElem?_eq_some_iff.mp hk).1
  have hmem := List.mem_of_getElem? hk
  have hlen : w'.workers.length = w.workers.length := by rw [hworkers, List.length_set]
  have hset : ∀ {j : Nat} {other : Worker}, w'.workers[j]? = some other →
      (j = k ∧ other = worker') ∨ (j ≠ k ∧ w.workers[j]? = some other) := by
    intro j other hj
    rw [hworkers] at hj
    by_cases hjk : j = k
    · subst hjk
      rw [List.getElem?_set_self hlt] at hj
      exact .inl ⟨rfl, (Option.some.inj hj).symm⟩
    · rw [List.getElem?_set_ne (Ne.symm hjk)] at hj
      exact .inr ⟨hjk, hj⟩
  have hall : ∀ {P : Worker → Prop}, (∀ other ∈ w.workers, P other) → P worker' →
      ∀ other ∈ w'.workers, P other := by
    intro P hold hnew other hother
    rw [hworkers] at hother
    rcases List.mem_or_eq_of_mem_set hother with hmem | rfl
    · exact hold other hmem
    · exact hnew
  have hstep : BusSys.Flow w'.bus ∧ BusSys.Keyed w'.bus ∧ w.bus.bus.subSeq ≤ w'.bus.bus.subSeq ∧
      (∀ (j : Nat) (other : Worker), w.workers[j]? = some other → other.stopped = false →
        other.sub ∈ w'.bus.bus.subscribers.map Subscriber.key) ∧
      ∀ (j : Nat) (other : Worker), w.workers[j]? = some other → j ≠ k →
        w'.bus.takenParcels other.sub = w.bus.takenParcels other.sub := by
    rcases hbus with hsame | ⟨l, hl, hkind⟩
    · rw [hsame]
      exact ⟨h.flow, h.keyed, le_rfl,
        fun j other hj => h.subscribed other (List.mem_of_getElem? hj), fun _ _ _ _ => rfl⟩
    · obtain ⟨hkeyed, hseq⟩ := BusSys.keyed_step h.flow h.keyed hl
      refine ⟨BusSys.flow_step h.flow hl, hkeyed, hseq, fun j other hj hno => ?_,
        fun j other hj hjk => ?_⟩
      · refine BusSys.step_subscribers hl ?_ (h.subscribed other (List.mem_of_getElem? hj) hno)
        rintro rfl
        rcases hkind with hcon | ⟨evt, now, hcon⟩ | ⟨hcon, hyes⟩
        · simp at hcon
        · simp at hcon
        · obtain rfl := h.sub_inj hj hk (BusLabel.cancel.inj hcon)
          obtain rfl := Option.some.inj (hj.symm.trans hk)
          rw [hyes] at hno
          simp at hno
      · have hne : l ≠ .recv other.sub := by
          rintro rfl
          rcases hkind with hcon | ⟨evt, now, hcon⟩ | ⟨hcon, -⟩
          · exact hjk (h.sub_inj hj hk (BusLabel.recv.inj hcon))
          · simp at hcon
          · simp at hcon
        rcases BusSys.takenParcels_step h.flow hl hne with hsame | ⟨rfl, -⟩
        · exact hsame
        · simp at hkind
  obtain ⟨hflow, hkeyed, hseq, hsubscribed, htaken⟩ := hstep
  obtain ⟨newAcks, hnewAcks, hacksK⟩ := hacks
  obtain ⟨newReports, hnewReports, hreportsK⟩ := hreports
  refine {
    flow := hflow, keyed := hkeyed, subs := ?_
    known := hall (fun other hother => (h.known other hother).trans hseq)
      (hsub ▸ (h.known worker hmem).trans hseq)
    subscribed := fun other hother => ?_
    leaving := hall h.leaving fun hl => hstopped ▸ hleaving hl
    acks := fun a ha => ?_, reports := fun r hr => ?_, tracked := fun j other hj => ?_ }
  · rw [hworkers, map_set_same hk hsub]
    exact h.subs
  · obtain ⟨j, hj⟩ := List.getElem?_of_mem hother
    rcases hset hj with ⟨-, rfl⟩ | ⟨-, hold⟩
    · rw [hsub, hstopped]
      exact hsubscribed k worker hk
    · exact hsubscribed j other hold
  · rw [hlen]
    rcases List.mem_append.mp (hnewAcks ▸ ha) with hold | hnew
    · exact h.acks a hold
    · rw [hacksK a hnew]
      exact hlt
  · rw [hlen]
    rcases List.mem_append.mp (hnewReports ▸ hr) with hold | hnew
    · exact h.reports r hold
    · rw [hreportsK r hnew]
      exact hlt
  · rcases hset hj with ⟨rfl, rfl⟩ | ⟨hjk, hold⟩
    · exact hsub ▸ htracked
    · have hnoAck : newAcks.filter (fun a => a.worker = j) = [] :=
        List.filter_eq_nil_iff.mpr fun a ha => by simpa [hacksK a ha] using Ne.symm hjk
      have hnoReport : newReports.filter (fun r => r.worker = j) = [] :=
        List.filter_eq_nil_iff.mpr fun r hr => by simpa [hreportsK r hr] using Ne.symm hjk
      rw [htaken j other hold hjk, HookWorld.acksOf, HookWorld.reportsOf, hnewAcks, hnewReports,
        List.filter_append, List.filter_append, hnoAck, hnoReport, List.append_nil, List.append_nil]
      exact h.tracked j other hold

/-- A step of worker `k` that leaves the bus, the answers and the reports alone. -/
theorem local' (h : Flowing w) (hk : w.workers[k]? = some worker) (hw' : w'.bus = w.bus)
    (hworkers : w'.workers = w.workers.set k worker') (hacks : w'.acks = w.acks)
    (hreports : w'.reports = w.reports) (hsub : worker'.sub = worker.sub)
    (hstopped : worker'.stopped = worker.stopped)
    (hleaving : worker'.delivery = .leaving → worker.stopped = true)
    (htracked : Tracked (w.bus.takenParcels worker.sub) (w.acksOf k) (w.reportsOf k) worker →
      Tracked (w.bus.takenParcels worker.sub) (w.acksOf k) (w.reportsOf k) worker') :
    Flowing w' := by
  refine h.advance hk (.inl hw') hworkers ⟨[], by rw [hacks, List.append_nil], by simp⟩
    ⟨[], by rw [hreports, List.append_nil], by simp⟩ hsub hstopped hleaving ?_
  rw [hw', HookWorld.acksOf, HookWorld.reportsOf, hacks, hreports]
  exact htracked (h.tracked k worker hk)

theorem acksOf_acknowledge (w : HookWorld) (k : Nat) (p : Parcel) :
    (w.acknowledge k p).acksOf k = w.acksOf k ++ [p] := by
  simp [HookWorld.acksOf, HookWorld.acknowledge]

theorem reportsOf_report (w : HookWorld) (k : Nat) (p : Parcel) (evt : Event) (now : Nat) :
    (w.report k p evt now).reportsOf k = w.reportsOf k ++ [p] := by
  simp [HookWorld.reportsOf, HookWorld.report]

end Flowing

namespace Tracked

variable {cfg : HookConfig} {taken acked reported : List Parcel} {worker : Worker} {p : Parcel}

/-- The next event off the channel. -/
theorem take (h : Tracked taken acked reported worker) (hreader : worker.reader = .idle) :
    Tracked (taken ++ [p]) acked reported { worker with reader := .holding p } := by
  obtain ⟨lost, hcount, hlost⟩ := h.accounted
  have hline : ({ worker with reader := .holding p } : Worker).inLine =
      worker.inLine ++ [p].filter worker.wants := by
    rw [Worker.inLine, Worker.inLine, hreader]
    show _ = worker.delivery.attempted ++ worker.queue ++ [] ++ _
    rw [List.append_nil]
    rfl
  refine ⟨⟨lost, fun q => ?_, hlost⟩, ?_⟩
  · have := hcount q
    show acked.count q + reported.count q + (worker.delivery.failing ++
      ({ worker with reader := .holding p } : Worker).inLine).count q + lost.count q =
        ((taken ++ [p]).filter worker.wants).count q
    rw [Worker.pending, List.count_append] at this
    rw [hline, List.filter_append, List.count_append, List.count_append, List.count_append]
    omega
  · rw [hline, ← List.append_assoc]
    exact h.ordered.append List.filter_sublist

/-- One parcel goes from the worker's hands to the acknowledged or to the reported ones, or
is lost. -/
theorem release (h : Tracked taken acked reported worker) (gone : List Parcel) {worker' : Worker}
    {acked' reported' : List Parcel} (hwants : ∀ p, worker'.wants p = worker.wants p)
    (hstopped : worker'.stopped = worker.stopped)
    (hcount : ∀ q, acked'.count q + reported'.count q + worker'.pending.count q + gone.count q =
      acked.count q + reported.count q + worker.pending.count q)
    (hgone : worker.stopped = false → gone = [])
    (hordered : (acked' ++ worker'.inLine).Sublist (acked ++ worker.inLine)) :
    Tracked taken acked' reported' worker' := by
  obtain ⟨lost, hall, hlost⟩ := h.accounted
  refine ⟨⟨gone ++ lost, fun q => ?_, fun hno => ?_⟩, hordered.trans h.ordered⟩
  · have := hall q
    have := hcount q
    rw [List.count_append, show worker'.wants = worker.wants from funext hwants]
    omega
  · rw [hstopped] at hno
    rw [hgone hno, hlost hno]
    rfl

/-- A delivery fails for good. -/
theorem fail (h : Tracked taken acked reported worker) (hattempted : worker.delivery.attempted = [p])
    (hfailing : worker.delivery.failing = []) {message : String} {status : Nat} :
    Tracked taken acked reported { worker with delivery := .failed p message status } := by
  have hnone : (DeliveryPC.failed p message status).attempted = [] := rfl
  have hone : (DeliveryPC.failed p message status).failing = [p] := rfl
  refine h.release [] (fun _ => rfl) rfl (fun q => ?_) (fun _ => rfl) ?_
  · simp only [Worker.pending, Worker.inLine, hattempted, hfailing, hnone, hone, List.count_append,
      List.count_nil]
    omega
  · simp [Worker.inLine, hattempted, hnone]

end Tracked

namespace Flowing

variable {cfg : HookConfig} {w w' : HookWorld} {k : Nat} {worker worker' : Worker} {m : WorkerMove}

/-- A status is persisted; the parcels stay where they are. -/
theorem recorded (h : Flowing w) (hk : w.workers[k]? = some worker) {now status : Nat} {error : String}
    {persisted : Bool} {d : DeliveryPC} (hattempted : d.attempted = worker.delivery.attempted)
    (hfailing : d.failing = worker.delivery.failing) (hd : d ≠ .leaving) :
    Flowing ((w.persist persisted (worker.recorded now status error)).setWorker k
      { worker.recorded now status error with delivery := d }) := by
  have hsame : Tracked (w.bus.takenParcels worker.sub) (w.acksOf k) (w.reportsOf k) worker →
      Tracked (w.bus.takenParcels worker.sub) (w.acksOf k) (w.reportsOf k)
        { worker.recorded now status error with delivery := d } := by
    intro ht
    refine ht.same (fun _ => rfl) rfl hfailing ?_
    have hwanted : ∀ r, ReaderPC.wanted (worker.recorded now status error).hook r =
        ReaderPC.wanted worker.hook r := fun r => by cases r <;> rfl
    show d.attempted ++ worker.queue ++
      ReaderPC.wanted (worker.recorded now status error).hook worker.reader = _
    rw [hwanted, hattempted]
    rfl
  cases persisted with
  | false => exact h.local' hk rfl rfl rfl rfl rfl rfl (fun hl => absurd hl hd) hsame
  | true => exact h.local' hk rfl rfl rfl rfl rfl rfl (fun hl => absurd hl hd) hsame

/-- **Nothing is lost track of** when a worker takes a step. -/
theorem workerStep (h : Flowing w) (hk : w.workers[k]? = some worker)
    (hstep : WorkerStep cfg w k worker m w') : Flowing w' := by
  have htracked := h.tracked k worker hk
  have hleaving : worker.delivery = .leaving → worker.stopped = true :=
    h.leaving worker (List.mem_of_getElem? hk)
  cases hstep with
  | take evt rest bus hreader hchannel hbus =>
      refine h.advance hk (.inr ⟨_, hbus, .inl rfl⟩) rfl ⟨[], (List.append_nil _).symm, by simp⟩
        ⟨[], (List.append_nil _).symm, by simp⟩ rfl rfl
        hleaving ?_
      show Tracked (bus.takenParcels worker.sub) _ _ _
      rw [BusSys.takenParcels_recv h.flow hchannel hbus]
      exact htracked.take hreader
  | skipped p hreader hwants =>
      have hwants : worker.hook.matchesType p.event.type = false := hwants
      refine h.local' hk rfl rfl rfl rfl rfl rfl hleaving fun ht => ?_
      refine ht.same (fun _ => rfl) rfl rfl ?_
      simp [Worker.inLine, ReaderPC.wanted, DeliveryPC.attempted, hreader, hwants]
  | queued p hreader hwants hroom =>
      have hwants : worker.hook.matchesType p.event.type = true := hwants
      refine h.local' hk rfl rfl rfl rfl rfl rfl hleaving fun ht => ?_
      refine ht.same (fun _ => rfl) rfl rfl ?_
      simp [Worker.inLine, ReaderPC.wanted, DeliveryPC.attempted, hreader, hwants]
  | overflowed p hreader hwants =>
      have hwants : worker.hook.matchesType p.event.type = true := hwants
      refine h.local' hk rfl rfl rfl rfl rfl rfl hleaving fun ht => ?_
      refine ht.same (fun _ => rfl) rfl rfl ?_
      simp [Worker.inLine, ReaderPC.wanted, DeliveryPC.attempted, hreader, hwants]
  | publishedOverflow p now hreader =>
      refine h.advance hk (.inr ⟨.publish _ now, rfl, .inr (.inl ⟨_, now, rfl⟩)⟩) rfl
        ⟨[], (List.append_nil _).symm, by simp⟩ ⟨_, rfl, by simp⟩ rfl rfl hleaving ?_
      show Tracked (w.bus.takenParcels worker.sub) (w.acksOf k)
        ((w.report k p (worker.overflowEvent p.event now) now).reportsOf k) _
      rw [reportsOf_report]
      refine htracked.release [] (fun _ => rfl) rfl (fun q => ?_) (fun _ => rfl) ?_
      · simp only [Worker.pending, Worker.inLine, ReaderPC.wanted, DeliveryPC.attempted, DeliveryPC.failing,
          hreader, List.count_append, List.count_nil]
        omega
      · simp [Worker.inLine, ReaderPC.wanted, DeliveryPC.attempted]
  | stoppedReader hreader hstop =>
      refine h.local' hk rfl rfl rfl rfl rfl rfl hleaving fun ht => ?_
      refine ht.same (fun _ => rfl) rfl rfl ?_
      simp [Worker.inLine, ReaderPC.wanted, DeliveryPC.attempted, hreader]
  | dequeued p rest hdelivery hqueue =>
      refine h.local' hk rfl rfl rfl rfl rfl rfl (by simp) fun ht => ?_
      refine ht.same (fun _ => rfl) rfl ?_ ?_
      · simp [DeliveryPC.failing, hdelivery]
      · simp [Worker.inLine, ReaderPC.wanted, DeliveryPC.attempted, hdelivery, hqueue]
  | validated p hdelivery =>
      refine h.local' hk rfl rfl rfl rfl rfl rfl (by simp) fun ht => ?_
      refine ht.same (fun _ => rfl) rfl ?_ ?_
      · simp [DeliveryPC.failing, hdelivery]
      · simp [Worker.inLine, ReaderPC.wanted, DeliveryPC.attempted, hdelivery]
  | refused p message hdelivery =>
      refine h.local' hk rfl rfl rfl rfl rfl rfl (by simp) fun ht => ?_
      exact ht.fail (by rw [hdelivery]; rfl) (by rw [hdelivery]; rfl)
  | acknowledged p attempt status hdelivery hstatus =>
      refine h.advance hk (.inl rfl) rfl ⟨_, rfl, by simp⟩ ⟨[], (List.append_nil _).symm, by simp⟩
        rfl rfl (by simp) ?_
      show Tracked (w.bus.takenParcels worker.sub) ((w.acknowledge k p).acksOf k) (w.reportsOf k) _
      rw [acksOf_acknowledge]
      refine htracked.release [] (fun _ => rfl) rfl (fun q => ?_) (fun _ => rfl) ?_
      · simp only [Worker.pending, Worker.inLine, ReaderPC.wanted, DeliveryPC.attempted, DeliveryPC.failing,
          hdelivery, List.count_append, List.count_nil]
        omega
      · simp [Worker.inLine, ReaderPC.wanted, DeliveryPC.attempted, hdelivery]
  | unanswered p attempt failure status message last hdelivery =>
      refine h.local' hk rfl rfl rfl rfl ?_ ?_ ?_ fun ht => ?_
      · unfold HookWorld.retryOrFail
        split_ifs <;> rfl
      · unfold HookWorld.retryOrFail
        split_ifs <;> rfl
      · unfold HookWorld.retryOrFail
        split_ifs <;> simp
      · unfold HookWorld.retryOrFail
        split_ifs
        · refine ht.same (fun _ => rfl) rfl ?_ ?_
          · simp [DeliveryPC.failing, hdelivery]
          · simp [Worker.inLine, ReaderPC.wanted, DeliveryPC.attempted, hdelivery]
        · exact ht.fail (by rw [hdelivery]; rfl) (by rw [hdelivery]; rfl)
  | timer p attempt hdelivery =>
      refine h.local' hk rfl rfl rfl rfl rfl rfl (by simp) fun ht => ?_
      refine ht.same (fun _ => rfl) rfl ?_ ?_
      · simp [DeliveryPC.failing, hdelivery]
      · simp [Worker.inLine, ReaderPC.wanted, DeliveryPC.attempted, hdelivery]
  | abandoned p attempt hdelivery hstop =>
      refine h.local' hk rfl rfl rfl rfl rfl rfl (by simp) fun ht => ?_
      refine ht.release [p] (fun _ => rfl) rfl (fun q => ?_) (fun hno => ?_) ?_
      · simp only [Worker.pending, Worker.inLine, ReaderPC.wanted, DeliveryPC.attempted, DeliveryPC.failing,
          hdelivery, List.count_append, List.count_nil]
        omega
      · rw [hstop] at hno
        simp at hno
      · simp [Worker.inLine, ReaderPC.wanted, DeliveryPC.attempted, hdelivery]
  | recordedSuccess status now persisted hdelivery =>
      exact h.recorded hk (by rw [hdelivery]; rfl) (by rw [hdelivery]; rfl) (by simp)
  | recordedFailure p message status now persisted hdelivery =>
      exact h.recorded hk (by rw [hdelivery]; rfl) (by rw [hdelivery]; rfl) (by simp)
  | publishedFailure p message status now hdelivery =>
      refine h.advance hk (.inr ⟨.publish _ now, rfl, .inr (.inl ⟨_, now, rfl⟩)⟩) rfl
        ⟨[], (List.append_nil _).symm, by simp⟩ ⟨_, rfl, by simp⟩ rfl rfl (by simp) ?_
      show Tracked (w.bus.takenParcels worker.sub) (w.acksOf k)
        ((w.report k p (worker.failureEvent p.event message status now) now).reportsOf k) _
      rw [reportsOf_report]
      refine htracked.release [] (fun _ => rfl) rfl (fun q => ?_) (fun _ => rfl) ?_
      · simp only [Worker.pending, Worker.inLine, ReaderPC.wanted, DeliveryPC.attempted, DeliveryPC.failing,
          hdelivery, List.count_append, List.count_nil]
        omega
      · simp [Worker.inLine, ReaderPC.wanted, DeliveryPC.attempted, hdelivery]
  | stoppedDelivery hdelivery hstop =>
      refine h.local' hk rfl rfl rfl rfl rfl rfl (fun _ => hstop) fun ht => ?_
      refine ht.same (fun _ => rfl) rfl ?_ ?_
      · simp [DeliveryPC.failing, hdelivery]
      · simp [Worker.inLine, ReaderPC.wanted, DeliveryPC.attempted, hdelivery]
  | cancelledSub hdelivery =>
      refine h.advance hk (.inr ⟨.cancel worker.sub, rfl, .inr (.inr ⟨rfl, hleaving hdelivery⟩)⟩) rfl
        ⟨[], (List.append_nil _).symm, by simp⟩ ⟨[], (List.append_nil _).symm, by simp⟩ rfl rfl
        (by simp) ?_
      refine htracked.same (fun _ => rfl) rfl ?_ ?_
      · simp [DeliveryPC.failing, hdelivery]
      · simp [Worker.inLine, ReaderPC.wanted, DeliveryPC.attempted, hdelivery]

/-- A new worker has a channel of its own, with nothing on it. -/
theorem startWorker (h : Flowing w) (wh : Webhook) : Flowing (w.startWorker wh) := by
  unfold HookWorld.startWorker
  split
  · exact h
  · set bus := w.bus.subscribe ("webhook-" ++ wh.id) with hbus
    have hstep : w.bus.step (.subscribe ("webhook-" ++ wh.id)) = some bus := rfl
    have hseq : bus.bus.subSeq = w.bus.bus.subSeq + 1 := rfl
    have hsub : Flowing { w with bus := bus } := h.bus hstep (by simp) (by simp)
    set new : Worker := { hook := wh, sub := bus.bus.subSeq } with hnew
    have hfresh : bus.takenParcels new.sub = [] := by
      have hnone : bus.delivered new.sub = [] := by
        rw [BusSys.delivered, List.map_eq_nil_iff, List.filter_eq_nil_iff]
        intro o ho
        have : o.key ≤ w.bus.bus.subSeq := h.keyed.offers o ho
        have hkey : new.sub = w.bus.bus.subSeq + 1 := hseq
        simp only [hkey, Bool.and_eq_true, decide_eq_true_eq, not_and]
        omega
      rw [BusSys.takenParcels, BusSys.parcels, hnone, List.filterMap_nil, List.take_nil]
    have hall : ∀ {P : Worker → Prop}, (∀ other ∈ w.workers, P other) → P new →
        ∀ other ∈ w.workers ++ [new], P other := by
      intro P hold hone other hother
      rcases List.mem_append.mp hother with hmem | hmem
      · exact hold other hmem
      · exact List.mem_singleton.mp hmem ▸ hone
    have hlen : ∀ n, n < w.workers.length → n < (w.workers ++ [new]).length := by
      intro n hn
      rw [List.length_append]
      omega
    refine { flow := hsub.flow, keyed := hsub.keyed, subs := ?_
             known := hall hsub.known le_rfl
             subscribed := hall hsub.subscribed fun _ => ?_
             leaving := hall hsub.leaving fun hl => by simp [hnew] at hl
             acks := fun a ha => hlen _ (h.acks a ha), reports := fun r hr => hlen _ (h.reports r hr)
             tracked := fun k worker hk => ?_ }
    · show ((w.workers ++ [new]).map Worker.sub).Nodup
      rw [List.map_append, List.nodup_append]
      refine ⟨h.subs, List.nodup_singleton _, ?_⟩
      rintro a ha b hb rfl
      obtain ⟨other, hother, rfl⟩ := List.mem_map.mp ha
      have hkey : other.sub = w.bus.bus.subSeq + 1 := List.mem_singleton.mp hb
      have := h.known other hother
      omega
    · show bus.bus.subSeq ∈ (w.bus.bus.subscribers ++ [_]).map Subscriber.key
      rw [List.map_append]
      exact List.mem_append_right _ List.mem_cons_self
    · have hk' : (w.workers ++ [new])[k]? = some worker := hk
      rw [List.getElem?_append] at hk'
      split_ifs at hk' with hlt
      · exact hsub.tracked k worker hk'
      · have hnew' : worker = new := by
          rw [List.getElem?_singleton] at hk'
          split_ifs at hk'
          exact (Option.some.inj hk').symm
        have hacks : w.acksOf k = [] := by
          rw [HookWorld.acksOf, List.map_eq_nil_iff, List.filter_eq_nil_iff]
          intro a ha
          have := h.acks a ha
          simp only [decide_eq_true_eq]
          omega
        have hreports : w.reportsOf k = [] := by
          rw [HookWorld.reportsOf, List.map_eq_nil_iff, List.filter_eq_nil_iff]
          intro r hr
          have := h.reports r hr
          simp only [decide_eq_true_eq]
          omega
        subst hnew'
        show Tracked (bus.takenParcels new.sub) (w.acksOf k) (w.reportsOf k) new
        rw [hfresh, hacks, hreports]
        exact Tracked.fresh rfl

theorem register (h : Flowing w) (wh : Webhook) : Flowing (w.register wh) := by
  unfold HookWorld.register
  split_ifs
  · exact h.startWorker wh
  · exact h

/-- Whoever is told to stop keeps what it has. -/
theorem unregister (h : Flowing w) (id : String) : Flowing (w.unregister id) := by
  unfold HookWorld.unregister
  split
  · exact h
  · next j _ =>
      set stop : Worker → Worker := fun worker => { worker with stopped := true } with hstop
      have hget : ∀ {k : Nat} {worker : Worker}, (w.workers.modify j stop)[k]? = some worker →
          ∃ old, w.workers[k]? = some old ∧ (worker = old ∨ worker = stop old) := by
        intro k worker hk
        rw [List.getElem?_modify, Option.map_eq_map, Option.map_eq_some_iff] at hk
        obtain ⟨old, hold, rfl⟩ := hk
        refine ⟨old, hold, ?_⟩
        split_ifs
        · exact .inr rfl
        · exact .inl rfl
      have hall : ∀ {P : Worker → Prop}, (∀ old ∈ w.workers, P old ∧ P (stop old)) →
          ∀ other ∈ w.workers.modify j stop, P other := by
        intro P hold other hother
        obtain ⟨k, hk⟩ := List.getElem?_of_mem hother
        obtain ⟨old, hget, rfl | rfl⟩ := hget hk
        · exact (hold _ (List.mem_of_getElem? hget)).1
        · exact (hold old (List.mem_of_getElem? hget)).2
      refine { flow := h.flow, keyed := h.keyed, subs := ?_
               known := hall fun old hold => ⟨h.known old hold, h.known old hold⟩
               subscribed := hall fun old hold => ⟨h.subscribed old hold, fun hno => by simp [hstop] at hno⟩
               leaving := hall fun old hold => ⟨h.leaving old hold, fun _ => rfl⟩
               acks := fun a ha => ?_, reports := fun r hr => ?_, tracked := fun k worker hk => ?_ }
      · have hsame : (w.workers.modify j stop).map Worker.sub = w.workers.map Worker.sub := by
          refine List.ext_getElem? fun k => ?_
          rw [List.getElem?_map, List.getElem?_map, List.getElem?_modify]
          cases w.workers[k]? with
          | none => rfl
          | some old =>
              show some _ = some _
              split_ifs <;> rfl
        exact hsame ▸ h.subs
      · show a.worker < (w.workers.modify j stop).length
        rw [List.length_modify]
        exact h.acks a ha
      · show r.worker < (w.workers.modify j stop).length
        rw [List.length_modify]
        exact h.reports r hr
      · obtain ⟨old, hold, rfl | rfl⟩ := hget hk
        · exact h.tracked k _ hold
        · obtain ⟨lost, hcount, -⟩ := (h.tracked k old hold).accounted
          exact ⟨⟨lost, hcount, fun hno => by simp [hstop] at hno⟩, (h.tracked k old hold).ordered⟩

end Flowing

/-! ### Runs -/

/-- What a step of the system can do to the world. -/
inductive WorldStep (cfg : HookConfig) (w : HookWorld) : HookLabel → HookWorld → Prop
  /-- Only the records of the store change, if anything. -/
  | records (l : HookLabel) (w' : HookWorld) (hbus : w'.bus = w.bus) (hworkers : w'.workers = w.workers)
      (hacks : w'.acks = w.acks) (hreports : w'.reports = w.reports) : WorldStep cfg w l w'
  | started (l : HookLabel) (wh : Webhook) : WorldStep cfg w l (w.startWorker wh)
  | unregistered (l : HookLabel) (id : String) : WorldStep cfg w l (w.unregister id)
  | bus (l : BusLabel) (bus : BusSys) (hforeign : w.foreign l = true) (hbus : w.bus.step l = some bus) :
      WorldStep cfg w (.env (.bus l)) { w with bus := bus }
  | worker (k : Nat) (m : WorkerMove) (worker : Worker) (w' : HookWorld)
      (hk : w.workers[k]? = some worker) (hstep : WorkerStep cfg w k worker m w') :
      WorldStep cfg w (.env (.worker k m)) w'

namespace HookSys

variable {cfg : HookConfig} {s s' : HookSys} {l : HookLabel}

theorem exec_world {w w' : HookWorld} {c : HookCmd} {x : HookChoice} {r : c.Resp}
    (h : HookWorld.exec c x w = some (r, w')) (l : HookLabel) : WorldStep cfg w l w' := by
  cases c with
  | getWebhook id =>
      rcases fallible_eq h with ⟨e, -, rfl⟩ | ⟨wh, -, hact, -⟩
      · exact .records l _ rfl rfl rfl rfl
      · split at hact
        · simp only [Except.ok.injEq, Prod.mk.injEq] at hact
          obtain ⟨-, rfl⟩ := hact
          exact .records l _ rfl rfl rfl rfl
        · simp at hact
  | putWebhook wh why | deleteWebhook id | post url secret evt =>
      rcases fallible_ok h with ⟨-, -, rfl⟩ | ⟨-, -, rfl⟩
      · exact .records l _ rfl rfl rfl rfl
      · exact .records l _ rfl rfl rfl rfl
  | register wh =>
      obtain ⟨-, rfl⟩ := Prod.mk.injEq _ _ _ _ ▸ Option.some.inj h
      rw [HookWorld.register]
      split_ifs
      · exact .started l wh
      · exact .records l _ rfl rfl rfl rfl
  | unregister id =>
      obtain ⟨-, rfl⟩ := Prod.mk.injEq _ _ _ _ ▸ Option.some.inj h
      exact .unregistered l id
  | now | validateTarget url =>
      obtain ⟨-, rfl⟩ := Prod.mk.injEq _ _ _ _ ▸ Option.some.inj h
      exact .records l _ rfl rfl rfl rfl

theorem step_world (h : step cfg s l = some s') : WorldStep cfg s.world l s'.world := by
  cases l with
  | call op | restart op =>
      simp only [step, Pool.step, Option.some.injEq] at h
      subst h
      exact .records _ _ rfl rfl rfl rfl
  | step i x =>
      obtain ⟨t, c, k, r, w', -, -, -, hexec, rfl⟩ := Pool.step_step h
      exact exec_world hexec _
  | env e =>
      obtain ⟨w', hmove, rfl⟩ := Pool.step_env h
      rcases HookWorld.move_cases hmove with ⟨l, bus, rfl, hforeign, hbus, rfl⟩ |
        ⟨k, m, worker, rfl, hk, hworker⟩
      · exact .bus l bus hforeign hbus
      · exact .worker k m worker w' hk hworker

end HookSys

theorem flowing_step {cfg : HookConfig} {w w' : HookWorld} {l : HookLabel} (h : Flowing w)
    (hstep : WorldStep cfg w l w') : Flowing w' := by
  cases hstep with
  | records _ _ hbus hworkers hacks hreports => exact h.congr hbus hworkers hacks hreports
  | started _ wh => exact h.startWorker wh
  | unregistered _ id => exact h.unregister id
  | bus l bus hforeign hbus =>
      refine h.bus hbus (fun worker hworker => ?_) fun worker hworker _ => ?_
      · rintro rfl
        rw [HookWorld.foreign, List.all_eq_true] at hforeign
        simpa using hforeign worker hworker
      · rintro rfl
        rw [HookWorld.foreign, List.all_eq_true] at hforeign
        simpa using hforeign worker hworker
  | worker k m worker _ hk hworker => exact h.workerStep hk hworker

theorem flowing_start (stored : StoredHooks) (events : EventStore) :
    Flowing (HookSys.start stored events) := by
  have hempty : Flowing { hooks := stored.hooks, bus := BusSys.init events } := by
    refine ⟨BusSys.flow_init events, BusSys.keyed_init events, List.nodup_nil, ?_, ?_, ?_, ?_, ?_, ?_⟩
    · exact fun worker h => absurd h List.not_mem_nil
    · exact fun worker h => absurd h List.not_mem_nil
    · exact fun worker h => absurd h List.not_mem_nil
    · exact fun a h => absurd h List.not_mem_nil
    · exact fun r h => absurd h List.not_mem_nil
    · exact fun k worker h => by simp at h
  rw [HookSys.start]
  generalize ({ hooks := stored.hooks, bus := BusSys.init events } : HookWorld) = w at hempty ⊢
  induction stored.hooks.values generalizing w with
  | nil => exact hempty
  | cons wh whs ih => exact ih _ (hempty.register wh)

/-! ### Reports -/

namespace BusSys

/-- An event is accepted while the channel has room. -/
theorem publish_accepted (b : BusSys) (evt : Event) (now : Nat) :
    if b.bus.publishCh.length < publishBufSize then
      ∃ e, (b.publish evt now).accepted = b.accepted ++ [e] ∧ e.type = evt.type ∧
        e.attributes = evt.attributes
    else (b.publish evt now).accepted = b.accepted := by
  have hdef : (b.publish evt now).accepted =
      b.accepted ++ (b.bus.publish evt now).publishCh.drop b.bus.publishCh.length := rfl
  split_ifs with hroom
  · rw [hdef, EventBus.publish]
    simp only [hroom, if_true]
    rw [List.drop_left' rfl]
    refine ⟨_, rfl, ?_, ?_⟩
    · show (ite _ _ _ : Event).type = _
      split_ifs <;> rfl
    · show (ite _ _ _ : Event).attributes = _
      split_ifs <;> rfl
  · rw [hdef, EventBus.publish]
    simp only [hroom, if_false]
    rw [List.drop_length, List.append_nil]

end BusSys

/-- A report says what it is about, and is where it says. -/
structure Placed (w : HookWorld) (r : Report) : Prop where
  type : r.event.type = "webhook.delivery_failed" ∨ r.event.type = "webhook.queue_overflow"
  about : w.bus.processed[r.cause.index]?.map Prod.fst = some r.cause.event
  place : ∀ n, r.position = some n → ∃ e, w.bus.accepted[n]? = some e ∧ e.type = r.event.type ∧
    e.attributes = r.event.attributes

namespace Placed

variable {cfg : HookConfig} {w w' : HookWorld} {r : Report}

theorem mono (h : Placed w r) (hprocessed : ∃ more, w'.bus.processed = w.bus.processed ++ more)
    (haccepted : ∃ more, w'.bus.accepted = w.bus.accepted ++ more) : Placed w' r := by
  obtain ⟨es, hes⟩ := hprocessed
  obtain ⟨as, has⟩ := haccepted
  refine ⟨h.type, ?_, fun n hn => ?_⟩
  · obtain ⟨e, he, -⟩ := Option.map_eq_some_iff.mp h.about
    rw [hes, List.getElem?_append_left (List.getElem?_eq_some_iff.mp he).1]
    exact h.about
  · obtain ⟨e, he, hsame⟩ := h.place n hn
    exact ⟨e, by rw [has, List.getElem?_append_left (List.getElem?_eq_some_iff.mp he).1, he], hsame⟩

/-- What a worker has in hand is one of the processed events. -/
theorem pending_processed (h : Flowing w) {k : Nat} {worker : Worker} (hk : w.workers[k]? = some worker)
    {p : Parcel} (hp : p ∈ worker.pending) : p ∈ w.bus.parcels worker.sub := by
  obtain ⟨lost, hcount, -⟩ := (h.tracked k worker hk).accounted
  have := hcount p
  have hpos : 0 < worker.pending.count p := List.count_pos_iff.mpr hp
  have hmem : p ∈ (w.bus.takenParcels worker.sub).filter worker.wants :=
    List.count_pos_iff.mp (by omega)
  exact List.mem_of_mem_take (List.mem_of_mem_filter hmem)

/-- The report a worker has just published. -/
theorem report (h : Flowing w) {k : Nat} {worker : Worker} (hk : w.workers[k]? = some worker)
    {p : Parcel} (hp : p ∈ worker.pending) {evt : Event} (now : Nat)
    (htype : evt.type = "webhook.delivery_failed" ∨ evt.type = "webhook.queue_overflow") :
    ∀ r ∈ (w.report k p evt now).reports, r ∈ w.reports ∨ Placed (w.report k p evt now) r := by
  intro r hr
  rcases List.mem_append.mp hr with hold | hnew
  · exact .inl hold
  · right
    rw [List.mem_singleton] at hnew
    subst hnew
    refine ⟨htype, (BusSys.mem_parcels (pending_processed h hk hp)).2, fun n hn => ?_⟩
    have haccepted := BusSys.publish_accepted w.bus evt now
    dsimp only at hn
    split_ifs at haccepted
    · obtain ⟨e, he, hsame⟩ := haccepted
      have hmore : w.bus.accepted.length < (w.bus.accepted ++ [e]).length := by simp
      rw [he, if_pos hmore] at hn
      refine ⟨e, ?_, hsame⟩
      show (w.bus.publish evt now).accepted[n]? = some e
      rw [he, ← Option.some.inj hn, List.getElem?_concat_length]
    · rw [haccepted, if_neg (lt_irrefl _)] at hn
      simp at hn

/-- Reports stay what they are, and new ones are placed. -/
theorem step {l : HookLabel} (hw : Flowing w) (h : ∀ r ∈ w.reports, Placed w r)
    (hstep : WorldStep cfg w l w') : ∀ r ∈ w'.reports, Placed w' r := by
  have hkeep : ∀ {w' : HookWorld}, w'.reports = w.reports →
      (w'.bus = w.bus ∨ ∃ l, w.bus.step l = some w'.bus) → ∀ r ∈ w'.reports, Placed w' r := by
    intro w' hreports hbus r hr
    rw [hreports] at hr
    rcases hbus with hsame | ⟨l, hl⟩
    · exact (h r hr).mono ⟨[], by rw [hsame, List.append_nil]⟩ ⟨[], by rw [hsame, List.append_nil]⟩
    · exact (h r hr).mono (BusSys.step_grows hl).1 (BusSys.step_accepted hl)
  have hpublished : ∀ {k : Nat} {worker worker' : Worker} {p : Parcel} {evt : Event} {now : Nat},
      w.workers[k]? = some worker → p ∈ worker.pending →
      (evt.type = "webhook.delivery_failed" ∨ evt.type = "webhook.queue_overflow") →
      ∀ r ∈ ((w.report k p evt now).setWorker k worker').reports,
        Placed ((w.report k p evt now).setWorker k worker') r := by
    intro k worker worker' p evt now hk hp htype r hr
    rcases report hw hk hp now htype r hr with hold | hnew
    · exact (h r hold).mono (BusSys.step_grows (show w.bus.step (.publish evt now) = some _ from rfl)).1
        (BusSys.step_accepted (show w.bus.step (.publish evt now) = some _ from rfl))
    · exact hnew.mono ⟨[], (List.append_nil _).symm⟩ ⟨[], (List.append_nil _).symm⟩
  cases hstep with
  | records _ _ hbus _ _ hreports => exact hkeep hreports (.inl hbus)
  | started _ wh =>
      unfold HookWorld.startWorker
      split
      · exact h
      · exact hkeep rfl (.inr ⟨.subscribe _, rfl⟩)
  | unregistered _ id =>
      unfold HookWorld.unregister
      split
      · exact h
      · exact hkeep rfl (.inl rfl)
  | bus l bus hforeign hbus => exact hkeep rfl (.inr ⟨l, hbus⟩)
  | worker k m worker _ hk hstep =>
      cases hstep with
      | take evt rest bus hreader hchannel hbus => exact hkeep rfl (.inr ⟨_, hbus⟩)
      | publishedOverflow p now hreader =>
          refine hpublished hk ?_ (.inr rfl)
          simp [Worker.pending, Worker.inLine, hreader, ReaderPC.wanted]
      | publishedFailure p message status now hdelivery =>
          refine hpublished hk ?_ (.inl rfl)
          simp [Worker.pending, hdelivery, DeliveryPC.failing]
      | recordedSuccess status now persisted hdelivery =>
          cases persisted <;> exact hkeep rfl (.inl rfl)
      | recordedFailure p message status now persisted hdelivery =>
          cases persisted <;> exact hkeep rfl (.inl rfl)
      | cancelledSub hdelivery => exact hkeep rfl (.inr ⟨.cancel worker.sub, rfl⟩)
      | skipped | queued | overflowed | stoppedReader | dequeued | validated | refused | acknowledged
      | unanswered | timer | abandoned | stoppedDelivery => exact hkeep rfl (.inl rfl)

end Placed

end VMSmith
