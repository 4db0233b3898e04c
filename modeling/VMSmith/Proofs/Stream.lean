/-
Resuming an event stream.

A client that reconnects names the last event it has seen; the handler replays
what was stored since and then switches to the live feed.  The two are joined by
`Subscribe`, and nothing holds the bus still across it.  An event that is stored
after the replay was read and fanned out before the subscription exists reaches
the client by neither path; one that is stored before the read and fanned out
after the subscription reaches it by both.

`JoinClean` is the condition that neither happens at the subscription: what the
replay has not written is exactly the event the bus is about to fan out.  Every
run that meets it there delivers without a gap and without a repeat, and the two
schedules at the end show each way of missing it.

The proof follows the events the handler has written or is sure to write, `seqIDs`:
its frames, then what is left of the replay, or what stands in its channel and
what the bus is still going to send it.  Every step moves an event along that line
or adds the newest one at its end.
-/
import Mathlib
import VMSmith.Events.StreamEvents

namespace VMSmith

/-! ### Channels

What a bus operation does to the channel of one key.
-/

namespace EventBus

@[simp] theorem modifyChannel_keys (b : EventBus) (k : Nat) (f : List Event → List Event) :
    (b.modifyChannel k f).subscribers.map Subscriber.key = b.subscribers.map Subscriber.key := by
  simp only [modifyChannel, List.map_map]
  refine List.map_congr_left fun s _ => ?_
  simp only [Function.comp_apply]
  split_ifs <;> rfl

theorem channel_modify_self {b : EventBus} {k : Nat} (f : List Event → List Event)
    (h : k ∈ b.subscribers.map Subscriber.key) :
    (b.modifyChannel k f).channel k = f (b.channel k) := by
  simp only [channel, modifyChannel]
  generalize b.subscribers = subs at h ⊢
  induction subs with
  | nil => simp at h
  | cons s ss ih =>
      by_cases hs : s.key = k
      · simp [hs]
      · have hk : k ∈ ss.map Subscriber.key := by
          rcases List.mem_cons.mp h with rfl | hk
          · exact absurd rfl hs
          · exact hk
        simpa only [List.map_cons, List.find?_cons, hs, if_false, decide_false] using ih hk

theorem channel_modify_ne (b : EventBus) {k k' : Nat} (f : List Event → List Event)
    (h : k ≠ k') : (b.modifyChannel k f).channel k' = b.channel k' := by
  simp only [channel, modifyChannel]
  induction b.subscribers with
  | nil => rfl
  | cons s ss ih =>
      simp only [List.map_cons, List.find?_cons]
      by_cases hs : s.key = k
      · simpa only [hs, if_true, h, decide_false] using ih
      · by_cases hs' : s.key = k'
        · simp [hs', Ne.symm h]
        · simpa only [hs, if_false, hs', decide_false] using ih

theorem channel_cancel_ne (b : EventBus) {k k' : Nat} (h : k ≠ k') :
    (b.cancel k).channel k' = b.channel k' := by
  simp only [channel, cancel]
  induction b.subscribers with
  | nil => rfl
  | cons s ss ih =>
      by_cases hs : s.key = k
      · have hne : s.key ≠ k' := hs ▸ h
        rw [List.filter_cons_of_neg (by simp [hs]), List.find?_cons_of_neg (by simp [hne])]
        exact ih
      · rw [List.filter_cons_of_pos (by simp [hs])]
        by_cases hs' : s.key = k'
        · simp [hs']
        · rw [List.find?_cons_of_neg (by simp [hs']), List.find?_cons_of_neg (by simp [hs'])]
          exact ih

theorem channel_subscribe_old (b : EventBus) (name : String) {k : Nat} (h : k ≤ b.subSeq) :
    (b.subscribe name).2.channel k = b.channel k := by
  have hk : b.subSeq + 1 ≠ k := by omega
  simp only [channel, subscribe, List.find?_append]
  cases b.subscribers.find? (fun s => s.key = k) with
  | some s => rfl
  | none => simp [hk]

theorem channel_subscribe_new (b : EventBus) (name : String)
    (h : ∀ sub ∈ b.subscribers, sub.key ≤ b.subSeq) :
    (b.subscribe name).2.channel (b.subSeq + 1) = [] := by
  have hnone : b.subscribers.find? (fun s => s.key = b.subSeq + 1) = none := by
    refine List.find?_eq_none.mpr fun s hs => ?_
    have := h s hs
    simp only [decide_eq_true_eq]
    omega
  simp [channel, subscribe, List.find?_append, hnone]

/-- A channel with something in it belongs to a registered subscriber. -/
theorem key_mem_of_channel {b : EventBus} {k : Nat} {e : Event} {es : List Event}
    (h : b.channel k = e :: es) : k ∈ b.subscribers.map Subscriber.key := by
  simp only [channel] at h
  cases hf : b.subscribers.find? (fun s => s.key = k) with
  | none => simp [hf] at h
  | some s =>
      have hs : s.key = k := by simpa using List.find?_some hf
      exact List.mem_map.mpr ⟨s, List.mem_of_find?_eq_some hf, hs⟩

theorem recv_eq_some {b b' : EventBus} {k : Nat} {e : Event} (h : b.recv k = some (e, b')) :
    ∃ es, b.channel k = e :: es ∧ b' = b.modifyChannel k (fun _ => es) := by
  simp only [recv] at h
  split at h
  · simp at h
  · rename_i evt rest hch
    simp only [Option.some.injEq, Prod.mk.injEq] at h
    obtain ⟨rfl, rfl⟩ := h
    exact ⟨rest, hch, rfl⟩

/-- What the bus is still going to send to this key. -/
def inFlight (b : EventBus) (key : Nat) : List Event :=
  match b.pc with
  | .idle => []
  | .fanOut evt => [evt]
  | .sending evt subs => if key ∈ subs then [evt] else []

/-- What this key's channel holds and will be sent. -/
def owed (b : EventBus) (key : Nat) : List Event := b.channel key ++ b.inFlight key

/-- A send moves the event from the bus into the channel it was meant for, and owes the
others what it owed them. -/
theorem owed_send (b : EventBus) {evt : Event} {k : Nat} {ks : List Nat} {key : Nat}
    (hpc : b.pc = .sending evt (k :: ks)) (hk : k ∉ ks)
    (hkey : key ∈ b.subscribers.map Subscriber.key)
    (hroom : k = key → (b.channel key).length < subscriberBufSize) :
    ({ b.modifyChannel k (offer evt) with pc := afterSend evt ks } : EventBus).owed key
      = b.owed key := by
  have hnew : ({ b.modifyChannel k (offer evt) with pc := afterSend evt ks } : EventBus).inFlight key
      = if key ∈ ks then [evt] else [] := by
    cases ks <;> simp [inFlight, afterSend]
  show (b.modifyChannel k (offer evt)).channel key ++ _ = _
  rw [hnew]
  by_cases hsame : k = key
  · subst hsame
    rw [channel_modify_self (offer evt) hkey, offer, if_pos (hroom rfl), if_neg hk, List.append_nil]
    simp [owed, inFlight, hpc]
  · rw [channel_modify_ne b (offer evt) hsame]
    simp [owed, inFlight, hpc, Ne.symm hsame]

theorem owed_congr {b b' : EventBus} {key : Nat} (hch : b'.channel key = b.channel key)
    (hpc : b'.pc = b.pc) : b'.owed key = b.owed key := by
  simp only [owed, inFlight, hch, hpc]

/-- Reading the subscribers keeps the event on its way to those among them. -/
theorem owed_snapshot (b : EventBus) {evt : Event} {order : List Nat} {key : Nat}
    (hpc : b.pc = .fanOut evt) (hkey : key ∈ order) :
    ({ b with pc := afterSend evt order } : EventBus).owed key = b.owed key := by
  have hnew : ({ b with pc := afterSend evt order } : EventBus).inFlight key = [evt] := by
    cases order with
    | nil => simp at hkey
    | cons k ks => simp only [inFlight, afterSend, if_pos hkey]
  have hold : b.inFlight key = [evt] := by simp [inFlight, hpc]
  show b.channel key ++ _ = b.channel key ++ _
  rw [hnew, hold]

/-- The keys are distinct and none is ahead of the counter. -/
structure Keyed (b : EventBus) : Prop where
  keys : ∀ sub ∈ b.subscribers, sub.key ≤ b.subSeq
  distinct : (b.subscribers.map Subscriber.key).Nodup
  subs : ∀ evt subs, b.pc = .sending evt subs → subs.Nodup ∧ ∀ k ∈ subs, k ≤ b.subSeq

theorem Keyed.mem_le {b : EventBus} (h : b.Keyed) {k : Nat}
    (hk : k ∈ b.subscribers.map Subscriber.key) : k ≤ b.subSeq := by
  obtain ⟨sub, hsub, rfl⟩ := List.mem_map.mp hk
  exact h.keys sub hsub

theorem Keyed.of_keys {b b' : EventBus} (h : b.Keyed)
    (hk : b'.subscribers.map Subscriber.key = b.subscribers.map Subscriber.key)
    (hs : b'.subSeq = b.subSeq)
    (hpc : ∀ evt subs, b'.pc = .sending evt subs → subs.Nodup ∧ ∀ k ∈ subs, k ≤ b.subSeq) :
    b'.Keyed := by
  constructor
  · intro sub hsub
    rw [hs]
    exact h.mem_le (hk ▸ List.mem_map_of_mem hsub)
  · rw [hk]
    exact h.distinct
  · intro evt subs hp
    rw [hs]
    exact hpc evt subs hp

theorem Keyed.subscribe {b : EventBus} (h : b.Keyed) (name : String) :
    (b.subscribe name).2.Keyed := by
  constructor
  · intro sub hsub
    rcases List.mem_append.mp hsub with hold | hnew
    · exact Nat.le_succ_of_le (h.keys sub hold)
    · rw [List.mem_singleton.mp hnew]
      exact le_refl _
  · show ((b.subscribers ++ [_]).map Subscriber.key).Nodup
    rw [List.map_append, List.map_singleton, List.nodup_append]
    refine ⟨h.distinct, List.pairwise_singleton _ _, fun k hk k' hk' => ?_⟩
    have := h.mem_le hk
    rw [List.mem_singleton.mp hk']
    show k ≠ b.subSeq + 1
    omega
  · intro evt subs hp
    obtain ⟨hnd, hle⟩ := h.subs evt subs hp
    exact ⟨hnd, fun k hk => Nat.le_succ_of_le (hle k hk)⟩

theorem Keyed.cancel {b : EventBus} (h : b.Keyed) (key : Nat) : (b.cancel key).Keyed := by
  constructor
  · exact fun sub hsub => h.keys sub (List.mem_of_mem_filter hsub)
  · exact h.distinct.sublist (List.filter_sublist.map _)
  · exact h.subs

end EventBus

namespace StreamSys

/-! ### What the client is owed -/

/-- The IDs of the frames written so far; a frame without one carries no number. -/
def frameIDs (s : StreamSys) : List String := (s.written.map Frame.id).filter (· ≠ "")

/-- The sequence numbers written are strictly increasing, and no stored event between
the resume point and the last of them is missing. -/
def GapFree (afterSeq : Nat) (s : StreamSys) : Prop :=
  ∃ seqs : List Nat, s.frameIDs = seqs.map toString ∧ seqs.Pairwise (· < ·) ∧
    ∀ n evt last, s.store.bucket.get? n = some evt → afterSeq < n →
      seqs.getLast? = some last → n ≤ last → n ∈ seqs

/-- The event that has its number and is not fanned out yet. -/
def awaiting (s : StreamSys) : Option Event :=
  match s.bus.pc with
  | .fanOut evt => some evt
  | _ => none

/-- At the subscription, what is stored past the resume point and not written is the
event the bus has yet to fan out, and that one is not written. -/
def JoinClean (afterSeq : Nat) (s : StreamSys) : Prop :=
  (∀ p ∈ s.store.bucket.entries, afterSeq < p.1 → toString p.1 ∉ s.frameIDs →
    s.awaiting.map Event.id = some (toString p.1)) ∧
  ∀ next ∈ s.awaiting, next.id ∉ s.frameIDs

/-- Every append succeeds, and the handler's channel has room when an event is sent
to it. -/
def Delivers (s : StreamSys) : StreamLabel → Prop
  | .process persisted _ => persisted = true
  | .send =>
      match s.bus.pc with
      | .sending _ (key :: _) =>
          s.liveKey = some key → (s.bus.channel key).length < subscriberBufSize
      | _ => True
  | _ => True

/-- The sequence counter does not wrap, and the subscription joins the replay cleanly. -/
def Joins (afterSeq : Nat) (s : StreamSys) : StreamLabel → Prop
  | .process _ _ => s.store.sequence + 1 < 2 ^ 64
  | .subscribeLive _ => s.JoinClean afterSeq
  | _ => True

instance (afterSeq : Nat) (s : StreamSys) : Decidable (s.JoinClean afterSeq) :=
  inferInstanceAs (Decidable (_ ∧ _))

instance (s : StreamSys) (l : StreamLabel) : Decidable (s.Delivers l) := by
  unfold Delivers
  split
  · infer_instance
  · split <;> infer_instance
  · infer_instance

instance (afterSeq : Nat) (s : StreamSys) (l : StreamLabel) : Decidable (s.Joins afterSeq l) := by
  unfold Joins
  split <;> infer_instance

/-- The events the handler is sure to write next, in order. -/
def ahead (s : StreamSys) : List Event :=
  match s.stream with
  | .replaying rest => rest
  | .live key => s.bus.owed key
  | _ => []

/-- Every number written or sure to be written. -/
def seqIDs (s : StreamSys) : List String := s.frameIDs ++ s.ahead.map Event.id

/-- Numbers in order, none ahead of the store, none missing below one that is there. -/
structure Covers (afterSeq : Nat) (store : EventStore) (seqs : List Nat) : Prop where
  sorted : seqs.Pairwise (· < ·)
  bounded : ∀ n ∈ seqs, n ≤ store.sequence
  closed : ∀ n evt, store.bucket.get? n = some evt → afterSeq < n → ∀ m ∈ seqs, n ≤ m → n ∈ seqs

/-- The invariant of a run that joins cleanly. -/
structure Inv (afterSeq : Nat) (s : StreamSys) : Prop where
  stamped : s.store.Stamped
  keyed : s.bus.Keyed
  /-- The event about to be fanned out is the newest. -/
  newest : ∀ evt, s.bus.pc = .fanOut evt → evt.id = toString s.store.sequence
  registered : ∀ key, s.stream = .live key → key ∈ s.bus.subscribers.map Subscriber.key
  fresh : s.stream = .start → s.written = []
  covers : ∃ seqs, s.seqIDs = seqs.map toString ∧ Covers afterSeq s.store seqs ∧
    (s.liveKey ≠ none → ∀ n evt, s.store.bucket.get? n = some evt → afterSeq < n → n ∈ seqs)

theorem frameIDs_write {s t : StreamSys} {evt : Event} {n : Nat} (hid : evt.id = toString n)
    (h : t.written = s.written ++ [Frame.ofEvent evt]) : t.frameIDs = s.frameIDs ++ [evt.id] := by
  have hne : evt.id ≠ "" := by simp [hid]
  simp [frameIDs, h, Frame.ofEvent, hne]

/-- A beginning of numbers that cover covers too: the rest lies above it. -/
theorem Covers.take {afterSeq : Nat} {store : EventStore} {ms ns : List Nat}
    (h : Covers afterSeq store (ms ++ ns)) : Covers afterSeq store ms := by
  obtain ⟨hms, -, hlt⟩ := List.pairwise_append.mp h.sorted
  constructor
  · exact hms
  · exact fun n hn => h.bounded n (List.mem_append_left _ hn)
  · intro n evt hget hafter m hm hle
    rcases List.mem_append.mp (h.closed n evt hget hafter m (List.mem_append_left _ hm) hle) with
      hin | hin
    · exact hin
    · have := hlt m hm n hin
      omega

theorem Inv.gapFree {afterSeq : Nat} {s : StreamSys} (h : s.Inv afterSeq) :
    s.GapFree afterSeq := by
  obtain ⟨seqs, hids, hcov, -⟩ := h.covers
  obtain ⟨ms, ns, rfl, hms, -⟩ := List.append_eq_map_iff.mp hids
  have hcov' := hcov.take
  refine ⟨ms, hms.symm, hcov'.sorted, ?_⟩
  intro n evt last hget hafter hlast hle
  exact hcov'.closed n evt hget hafter last (List.mem_of_getLast? hlast) hle

/-- A step that leaves the store, and the line of events owed, as they are. -/
theorem Inv.of_same {afterSeq : Nat} {s t : StreamSys} (h : s.Inv afterSeq)
    (hstore : t.store = s.store) (hkeyed : t.bus.Keyed)
    (hpc : ∀ evt, t.bus.pc = .fanOut evt → s.bus.pc = .fanOut evt)
    (hreg : ∀ key, t.stream = .live key → key ∈ t.bus.subscribers.map Subscriber.key)
    (hfresh : t.stream = .start → t.written = [])
    (hids : t.seqIDs = s.seqIDs) (hlive : t.liveKey ≠ none → s.liveKey ≠ none) :
    t.Inv afterSeq := by
  obtain ⟨seqs, hseqs, hcov, hall⟩ := h.covers
  refine ⟨hstore ▸ h.stamped, hkeyed, ?_, hreg, hfresh, seqs, hids.trans hseqs, hstore ▸ hcov, ?_⟩
  · intro evt hevt
    rw [hstore]
    exact h.newest evt (hpc evt hevt)
  · intro hl
    rw [hstore]
    exact hall (hlive hl)

/-- A step of the bus alone that owes the handler what it owed. -/
theorem Inv.of_bus {afterSeq : Nat} {s : StreamSys} {b : EventBus} (h : s.Inv afterSeq)
    (hkeyed : b.Keyed) (hpc : ∀ evt, b.pc = .fanOut evt → s.bus.pc = .fanOut evt)
    (hreg : ∀ key, s.stream = .live key → key ∈ b.subscribers.map Subscriber.key)
    (howed : ∀ key, s.stream = .live key → b.owed key = s.bus.owed key) :
    ({ s with bus := b } : StreamSys).Inv afterSeq := by
  refine h.of_same rfl hkeyed hpc hreg h.fresh ?_ id
  cases hs : s.stream with
  | live key => simp only [seqIDs, frameIDs, ahead, hs, howed key hs]
  | _ => simp only [seqIDs, frameIDs, ahead, hs]

/-- An append leaves the numbers covered: the new one is above them all. -/
theorem Covers.append {afterSeq : Nat} {store : EventStore} {seqs : List Nat} (evt : Event)
    (hlt : store.sequence + 1 < 2 ^ 64) (h : Covers afterSeq store seqs) :
    Covers afterSeq (store.appendEvent evt).2 seqs := by
  have hseq : store.nextSequence = store.sequence + 1 := Nat.mod_eq_of_lt hlt
  constructor
  · exact h.sorted
  · intro n hn
    have := h.bounded n hn
    show n ≤ store.nextSequence
    omega
  · intro n e hget hafter m hm hle
    rcases Bucket.mem_put hget with ⟨rfl, -⟩ | ⟨-, hold⟩
    · have := h.bounded m hm
      omega
    · exact h.closed n e hold hafter m hm hle

/-- A stored number above all of them may join at the end, if nothing stored is left out. -/
theorem Covers.concat {afterSeq : Nat} {store : EventStore} {seqs : List Nat} {new : Nat}
    (hlt : ∀ n ∈ seqs, n < new) (hle : new ≤ store.sequence)
    (hall : ∀ n evt, store.bucket.get? n = some evt → afterSeq < n → n ∈ seqs ++ [new])
    (h : Covers afterSeq store seqs) : Covers afterSeq store (seqs ++ [new]) := by
  constructor
  · refine List.pairwise_append.mpr ⟨h.sorted, List.pairwise_singleton _ _, fun n hn m hm => ?_⟩
    exact List.mem_singleton.mp hm ▸ hlt n hn
  · intro n hn
    rcases List.mem_append.mp hn with hn | hn
    · exact h.bounded n hn
    · exact List.mem_singleton.mp hn ▸ hle
  · exact fun n e hget hafter _ _ _ => hall n e hget hafter

/-! ### Steps of the bus -/

theorem inv_publish {afterSeq : Nat} {s : StreamSys} (h : s.Inv afterSeq) (evt : Event)
    (now : Nat) : ({ s with bus := s.bus.publish evt now } : StreamSys).Inv afterSeq := by
  have hsub : (s.bus.publish evt now).subscribers = s.bus.subscribers := by
    simp only [EventBus.publish]; split_ifs <;> rfl
  have hseq : (s.bus.publish evt now).subSeq = s.bus.subSeq := by
    simp only [EventBus.publish]; split_ifs <;> rfl
  have hpc : (s.bus.publish evt now).pc = s.bus.pc := by
    simp only [EventBus.publish]; split_ifs <;> rfl
  refine h.of_bus ?_ (fun e he => hpc ▸ he) (fun key hkey => hsub ▸ h.registered key hkey) ?_
  · exact h.keyed.of_keys (by rw [hsub]) hseq fun e subs he => h.keyed.subs e subs (hpc ▸ he)
  · exact fun key _ => EventBus.owed_congr (by simp only [EventBus.channel, hsub]) hpc

theorem inv_process {afterSeq : Nat} {s t : StreamSys} (h : s.Inv afterSeq) {now : Nat}
    (hlt : s.store.sequence + 1 < 2 ^ 64)
    (hstep : s.step afterSeq (.process true now) = some t) : t.Inv afterSeq := by
  have hseq : s.store.nextSequence = s.store.sequence + 1 := Nat.mod_eq_of_lt hlt
  simp only [step, EventBus.process] at hstep
  split at hstep
  · rename_i evt rest hpc hch
    simp only [if_true, Option.map_some, Option.some.injEq] at hstep
    subst hstep
    obtain ⟨seqs, hids, hcov, hall⟩ := h.covers
    refine ⟨EventStore.appendEvent_stamped h.stamped hlt evt, ?_, ?_, h.registered, h.fresh, ?_⟩
    · exact h.keyed.of_keys rfl rfl (by simp)
    · intro e he
      simp only [BusPC.fanOut.injEq] at he
      subst he
      rfl
    · cases hs : s.stream with
      | live key =>
          refine ⟨seqs ++ [s.store.sequence + 1], ?_, ?_, ?_⟩
          · have hold : s.frameIDs ++ (s.bus.channel key).map Event.id = seqs.map toString := by
              simpa only [seqIDs, ahead, hs, EventBus.owed, EventBus.inFlight, hpc,
                List.append_nil] using hids
            show s.frameIDs ++ (s.bus.channel key ++ [_]).map Event.id = _
            rw [List.map_append, ← List.append_assoc, hold, List.map_append, ← hseq]
            rfl
          · refine (hcov.append evt hlt).concat (fun n hn => ?_) (le_of_eq hseq.symm) ?_
            · have := hcov.bounded n hn
              omega
            · intro n e hget hafter
              rcases Bucket.mem_put hget with ⟨rfl, -⟩ | ⟨-, hold⟩
              · simp [hseq]
              · exact List.mem_append_left _ (hall (by simp [liveKey, hs]) n e hold hafter)
          · intro _ n e hget hafter
            rcases Bucket.mem_put hget with ⟨rfl, -⟩ | ⟨-, hold⟩
            · simp [hseq]
            · exact List.mem_append_left _ (hall (by simp [liveKey, hs]) n e hold hafter)
      | _ =>
          refine ⟨seqs, ?_, hcov.append evt hlt, fun hl => absurd ?_ hl⟩
          · simpa only [seqIDs, ahead, frameIDs, hs] using hids
          · simp only [liveKey]
  · simp at hstep

theorem inv_snapshot {afterSeq : Nat} {s t : StreamSys} (h : s.Inv afterSeq) {order : List Nat}
    (hstep : s.step afterSeq (.snapshot order) = some t) : t.Inv afterSeq := by
  simp only [step, EventBus.snapshot] at hstep
  split at hstep
  · rename_i evt hpc
    split_ifs at hstep with hperm
    · simp only [Option.map_some, Option.some.injEq] at hstep
      subst hstep
      have hnd : order.Nodup := hperm.nodup_iff.mpr h.keyed.distinct
      have hle : ∀ k ∈ order, k ≤ s.bus.subSeq := fun k hk => h.keyed.mem_le (hperm.mem_iff.mp hk)
      refine h.of_bus (h.keyed.of_keys rfl rfl ?_) ?_ h.registered ?_
      · intro e subs he
        cases order with
        | nil => simp [EventBus.afterSend] at he
        | cons k ks =>
            simp only [EventBus.afterSend, BusPC.sending.injEq] at he
            exact he.2 ▸ ⟨hnd, hle⟩
      · intro e he
        cases order <;> simp [EventBus.afterSend] at he
      · intro key hkey
        exact s.bus.owed_snapshot hpc (hperm.mem_iff.mpr (h.registered key hkey))
    · simp at hstep
  · simp at hstep

theorem inv_send {afterSeq : Nat} {s t : StreamSys} (h : s.Inv afterSeq)
    (hroom : s.Delivers .send) (hstep : s.step afterSeq .send = some t) : t.Inv afterSeq := by
  simp only [step, EventBus.send] at hstep
  split at hstep
  · rename_i evt k ks hpc
    simp only [Option.map_some, Option.some.injEq] at hstep
    subst hstep
    obtain ⟨hnd, hle⟩ := h.keyed.subs evt (k :: ks) hpc
    obtain ⟨hk, hks⟩ := List.nodup_cons.mp hnd
    have hkeys := s.bus.modifyChannel_keys k (EventBus.offer evt)
    refine h.of_bus (h.keyed.of_keys hkeys rfl ?_) ?_ ?_ ?_
    · intro e subs he
      cases ks with
      | nil => simp [EventBus.afterSend] at he
      | cons k' ks' =>
          simp only [EventBus.afterSend, BusPC.sending.injEq] at he
          exact he.2 ▸ ⟨hks, fun j hj => hle j (List.mem_cons_of_mem _ hj)⟩
    · intro e he
      cases ks <;> simp [EventBus.afterSend] at he
    · intro key hkey
      exact hkeys ▸ h.registered key hkey
    · intro key hkey
      refine s.bus.owed_send hpc hk (h.registered key hkey) fun heq => ?_
      simp only [Delivers, hpc, liveKey, hkey, Option.some.injEq] at hroom
      exact heq ▸ hroom heq.symm
  · simp at hstep

/-! ### Steps of the other clients -/

theorem ne_of_other {s : StreamSys} {key k : Nat} (hother : s.liveKey ≠ some key)
    (hk : s.stream = .live k) : key ≠ k := by
  intro hkey
  exact hother (by simp [liveKey, hk, hkey])

theorem inv_otherSubscribe {afterSeq : Nat} {s : StreamSys} (h : s.Inv afterSeq)
    (name : String) : ({ s with bus := (s.bus.subscribe name).2 } : StreamSys).Inv afterSeq := by
  refine h.of_bus (h.keyed.subscribe name) (fun _ he => he) ?_ ?_
  · intro key hkey
    show key ∈ (s.bus.subscribers ++ [_]).map Subscriber.key
    rw [List.map_append]
    exact List.mem_append_left _ (h.registered key hkey)
  · intro key hkey
    have hle := h.keyed.mem_le (h.registered key hkey)
    exact EventBus.owed_congr (s.bus.channel_subscribe_old name hle) rfl

theorem inv_otherCancel {afterSeq : Nat} {s : StreamSys} (h : s.Inv afterSeq) {key : Nat}
    (hother : s.liveKey ≠ some key) :
    ({ s with bus := s.bus.cancel key } : StreamSys).Inv afterSeq := by
  refine h.of_bus (h.keyed.cancel key) (fun _ he => he) ?_ ?_
  · intro k hk
    obtain ⟨sub, hsub, rfl⟩ := List.mem_map.mp (h.registered k hk)
    refine List.mem_map.mpr ⟨sub, List.mem_filter.mpr ⟨hsub, ?_⟩, rfl⟩
    simpa using Ne.symm (ne_of_other hother hk)
  · intro k hk
    exact EventBus.owed_congr (s.bus.channel_cancel_ne (ne_of_other hother hk)) rfl

theorem inv_otherRecv {afterSeq : Nat} {s : StreamSys} (h : s.Inv afterSeq) {key : Nat}
    (es : List Event) (hother : s.liveKey ≠ some key) :
    ({ s with bus := s.bus.modifyChannel key (fun _ => es) } : StreamSys).Inv afterSeq := by
  have hkeys := s.bus.modifyChannel_keys key (fun _ => es)
  refine h.of_bus (h.keyed.of_keys hkeys rfl h.keyed.subs) (fun _ he => he) ?_ ?_
  · intro k hk
    exact hkeys ▸ h.registered k hk
  · intro k hk
    exact EventBus.owed_congr (s.bus.channel_modify_ne _ (ne_of_other hother hk)) rfl

/-! ### Steps of the handler -/

/-- The replay holds every stored event past the resume point. -/
theorem covers_replay {afterSeq : Nat} {store : EventStore} (hst : store.Stamped)
    (hafter : afterSeq < 2 ^ 64)
    (hle : (store.listEventsAfterSeq afterSeq (sseReplayLimit + 1)).length ≤ sseReplayLimit) :
    ∃ seqs : List Nat,
      (store.listEventsAfterSeq afterSeq (sseReplayLimit + 1)).map Event.id = seqs.map toString ∧
      Covers afterSeq store seqs := by
  have hpos : 0 < sseReplayLimit + 1 := Nat.succ_pos _
  simp only [EventStore.listEventsAfterSeq, if_pos hpos] at hle ⊢
  -- The limit did not bite, so the read is the whole walk.
  have hwhole : ((store.bucket.seek ((afterSeq + 1) % 2 ^ 64)).map Prod.snd).take
      (sseReplayLimit + 1) = (store.bucket.seek ((afterSeq + 1) % 2 ^ 64)).map Prod.snd := by
    refine List.take_of_length_le ?_
    rw [List.length_take] at hle
    omega
  rw [hwhole]
  refine ⟨(store.bucket.seek ((afterSeq + 1) % 2 ^ 64)).map Prod.fst, ?_, ?_, ?_, ?_⟩
  · rw [List.map_map, List.map_map]
    refine List.map_congr_left fun p hp => ?_
    exact hst.stamped p.1 p.2 (Bucket.mem_seek.mp hp).2
  · exact List.pairwise_map.mpr (store.bucket.seek_sorted _)
  · intro n hn
    obtain ⟨p, hp, rfl⟩ := List.mem_map.mp hn
    exact hst.bounded p.1 p.2 (Bucket.mem_seek.mp hp).2
  · intro n evt hget hlt m hm _
    have hbound := hst.bounded n evt hget
    have hcounter := hst.counter
    have hseek : (afterSeq + 1) % 2 ^ 64 = afterSeq + 1 := Nat.mod_eq_of_lt (by omega)
    rw [hseek]
    exact List.mem_map.mpr ⟨(n, evt), Bucket.mem_seek.mpr ⟨hlt, hget⟩, rfl⟩

theorem inv_listReplay {afterSeq : Nat} {s t : StreamSys} (h : s.Inv afterSeq)
    (hafter : afterSeq < 2 ^ 64) (hpos : 0 < afterSeq)
    (hstep : s.listReplay afterSeq = some t) : t.Inv afterSeq := by
  simp only [listReplay] at hstep
  split at hstep
  · rename_i hs
    have hnone : s.frameIDs = [] := by simp [frameIDs, h.fresh hs]
    split_ifs at hstep with hlong
    · simp only [Option.some.injEq] at hstep
      subst hstep
      refine h.of_same rfl h.keyed (fun _ he => he) (by simp) (by simp) ?_ (by simp [liveKey])
      simp only [seqIDs, frameIDs, ahead, hs]
    · simp only [Option.some.injEq] at hstep
      subst hstep
      obtain ⟨seqs, hids, hcov⟩ := covers_replay h.stamped hafter (not_lt.mp hlong)
      refine ⟨h.stamped, h.keyed, h.newest, by simp, by simp, seqs, ?_, hcov, by simp [liveKey]⟩
      show s.frameIDs ++ _ = _
      rw [hnone, List.nil_append]
      exact hids
  · simp at hstep

/-- An event of the line goes from its front to the end of what is written. -/
theorem seqIDs_write {afterSeq : Nat} {s t : StreamSys} (h : s.Inv afterSeq) {evt : Event}
    {rest : List Event} (hahead : s.ahead = evt :: rest) (hahead' : t.ahead = rest)
    (hw : t.written = s.written ++ [Frame.ofEvent evt]) : t.seqIDs = s.seqIDs := by
  obtain ⟨seqs, hids, -, -⟩ := h.covers
  have hmem : evt.id ∈ seqs.map toString := by
    rw [← hids, seqIDs, hahead]
    simp
  obtain ⟨n, -, hn⟩ := List.mem_map.mp hmem
  rw [seqIDs, seqIDs, hahead, hahead', frameIDs_write hn.symm hw]
  simp

theorem inv_writeReplay {afterSeq : Nat} {s t : StreamSys} (h : s.Inv afterSeq)
    (hstep : s.writeReplay = some t) : t.Inv afterSeq := by
  simp only [writeReplay] at hstep
  split at hstep
  · rename_i evt rest hs
    simp only [Option.some.injEq] at hstep
    subst hstep
    refine h.of_same rfl h.keyed (fun _ he => he) (by simp) (by simp) ?_ (by simp [liveKey])
    exact seqIDs_write h (show _ = evt :: rest by simp [ahead, hs]) rfl rfl
  · simp at hstep

/-- Subscribing at a clean join: the one event still to be fanned out is the newest
stored and the only one not written. -/
theorem inv_subscribeLive {afterSeq : Nat} {s t : StreamSys} (h : s.Inv afterSeq) {name : String}
    (hjoin : s.JoinClean afterSeq) (hstep : s.subscribeLive name = some t) : t.Inv afterSeq := by
  simp only [subscribeLive] at hstep
  split at hstep
  · rename_i hs
    simp only [Option.some.injEq] at hstep
    subst hstep
    obtain ⟨hleft, hnext⟩ := hjoin
    obtain ⟨seqs, hids, hcov, -⟩ := h.covers
    have hframes : s.frameIDs = seqs.map toString := by
      simpa [seqIDs, ahead, hs] using hids
    have hmem : ∀ n, toString n ∈ s.frameIDs ↔ n ∈ seqs := by
      intro n
      rw [hframes]
      exact List.mem_map_of_injective fun _ _ heq => Nat.repr_injective heq
    have hch := s.bus.channel_subscribe_new name h.keyed.keys
    have hkey : ∀ key, StreamPC.live (s.bus.subSeq + 1) = .live key →
        key ∈ (s.bus.subscribe name).2.subscribers.map Subscriber.key := by
      intro key hk
      simp only [StreamPC.live.injEq] at hk
      simp [EventBus.subscribe, ← hk]
    refine ⟨h.stamped, h.keyed.subscribe name, h.newest, hkey, by simp, ?_⟩
    -- What the new channel is owed: the event to be fanned out, or nothing.
    have howed : ∀ es : List Event, (s.bus.subscribe name).2.inFlight (s.bus.subSeq + 1) = es →
        (s.bus.subscribe name).2.owed (s.bus.subSeq + 1) = es := by
      intro es hes
      rw [EventBus.owed, hch, hes, List.nil_append]
    have hwrote : (∀ evt, s.bus.pc ≠ .fanOut evt) →
        ∀ n e, s.store.bucket.get? n = some e → afterSeq < n → n ∈ seqs := by
      intro hnot n e hget hafter
      by_contra hn
      have hid := hleft (n, e) (Bucket.mem_entries.mpr hget) hafter
        (fun hin => hn ((hmem n).mp hin))
      simp [awaiting] at hid
    cases hpc : s.bus.pc with
    | fanOut evt =>
        have hnew : evt.id = toString s.store.sequence := h.newest evt hpc
        have hlt : ∀ n ∈ seqs, n < s.store.sequence := by
          intro n hn
          refine lt_of_le_of_ne (hcov.bounded n hn) fun heq => hnext evt (by simp [awaiting, hpc]) ?_
          rw [hnew, hmem]
          exact heq ▸ hn
        have hall : ∀ n e, s.store.bucket.get? n = some e → afterSeq < n →
            n ∈ seqs ++ [s.store.sequence] := by
          intro n e hget hafter
          by_cases hn : n ∈ seqs
          · exact List.mem_append_left _ hn
          · have hid := hleft (n, e) (Bucket.mem_entries.mpr hget) hafter
              (fun hin => hn ((hmem n).mp hin))
            simp only [awaiting, hpc, Option.map_some, Option.some.injEq, hnew] at hid
            have heq : s.store.sequence = n := Nat.repr_injective hid
            simp [heq]
        refine ⟨seqs ++ [s.store.sequence], ?_, hcov.concat hlt le_rfl hall, fun _ => hall⟩
        show s.frameIDs ++ ((s.bus.subscribe name).2.owed (s.bus.subSeq + 1)).map Event.id = _
        rw [howed [evt] (by simp [EventBus.inFlight, EventBus.subscribe, hpc]), hframes]
        simp [hnew]
    | idle =>
        refine ⟨seqs, ?_, hcov, fun _ => hwrote fun evt => by simp [hpc]⟩
        show s.frameIDs ++ ((s.bus.subscribe name).2.owed (s.bus.subSeq + 1)).map Event.id = _
        rw [howed [] (by simp [EventBus.inFlight, EventBus.subscribe, hpc]), hframes]
        simp
    | sending evt subs =>
        -- The keys being sent to were read before this one existed.
        have hnew : s.bus.subSeq + 1 ∉ subs := by
          intro hin
          have := (h.keyed.subs evt subs hpc).2 _ hin
          omega
        refine ⟨seqs, ?_, hcov, fun _ => hwrote fun evt => by simp [hpc]⟩
        show s.frameIDs ++ ((s.bus.subscribe name).2.owed (s.bus.subSeq + 1)).map Event.id = _
        rw [howed [] (by simp [EventBus.inFlight, EventBus.subscribe, hpc, hnew]), hframes]
        simp
  · simp at hstep

theorem inv_writeLive {afterSeq : Nat} {s t : StreamSys} (h : s.Inv afterSeq)
    (hstep : s.writeLive = some t) : t.Inv afterSeq := by
  simp only [writeLive] at hstep
  split at hstep
  · rename_i key hs
    simp only [Option.map_eq_some_iff] at hstep
    obtain ⟨⟨evt, bus⟩, hrecv, rfl⟩ := hstep
    obtain ⟨es, hch, rfl⟩ := EventBus.recv_eq_some hrecv
    have hkeys := s.bus.modifyChannel_keys key (fun _ => es)
    refine h.of_same rfl (h.keyed.of_keys hkeys rfl h.keyed.subs) (fun _ he => he) ?_ (by simp [hs])
      ?_ (fun _ => by simp [liveKey, hs])
    · intro k hk
      exact hkeys ▸ h.registered k hk
    · have hahead : s.ahead = evt :: (es ++ s.bus.inFlight key) := by
        simp only [ahead, hs, EventBus.owed, hch, List.cons_append]
      refine seqIDs_write h hahead ?_ rfl
      have hch' := EventBus.channel_modify_self (fun _ => es) (EventBus.key_mem_of_channel hch)
      simp only [ahead, hs, EventBus.owed, hch']
      rfl
  · simp at hstep

/-- Leaving writes no numbered frame, and nothing is owed any more. -/
theorem inv_leave {afterSeq : Nat} {s t : StreamSys} (h : s.Inv afterSeq) {last : List Frame}
    (hlast : ∀ f ∈ last, f.id = "") (hstep : s.leave last = some t) : t.Inv afterSeq := by
  simp only [leave] at hstep
  split at hstep
  · rename_i key hs
    simp only [Option.some.injEq] at hstep
    subst hstep
    obtain ⟨seqs, hids, hcov, -⟩ := h.covers
    obtain ⟨ms, ns, rfl, hms, -⟩ := List.append_eq_map_iff.mp hids
    refine ⟨h.stamped, h.keyed.cancel key, h.newest, by simp, by simp, ms, ?_, hcov.take,
      by simp [liveKey]⟩
    have hnone : (last.map Frame.id).filter (· ≠ "") = [] := by
      refine List.filter_eq_nil_iff.mpr fun id hid => ?_
      obtain ⟨f, hf, rfl⟩ := List.mem_map.mp hid
      simp [hlast f hf]
    show ((s.written ++ last).map Frame.id).filter (· ≠ "") ++ [] = _
    rw [List.append_nil, List.map_append, List.filter_append, hnone, List.append_nil]
    exact hms.symm
  · simp at hstep

/-! ### The run -/

/-- Every step but the replay read, from whatever point that read resumes. -/
theorem inv_step_other {afterSeq resume : Nat} {s t : StreamSys} {l : StreamLabel}
    (h : s.Inv afterSeq) (hother : l ≠ .listReplay) (hdelivers : s.Delivers l)
    (hjoins : s.Joins afterSeq l) (hstep : s.step resume l = some t) : t.Inv afterSeq := by
  cases l with
  | publish evt now =>
      simp only [step, Option.some.injEq] at hstep
      exact hstep ▸ inv_publish h evt now
  | process persisted now =>
      simp only [Delivers] at hdelivers
      exact inv_process h hjoins (hdelivers ▸ hstep)
  | snapshot order => exact inv_snapshot h hstep
  | send => exact inv_send h hdelivers hstep
  | otherSubscribe name =>
      simp only [step, Option.some.injEq] at hstep
      exact hstep ▸ inv_otherSubscribe h name
  | otherCancel key =>
      simp only [step] at hstep
      split_ifs at hstep with hlive
      simp only [Option.some.injEq] at hstep
      exact hstep ▸ inv_otherCancel h hlive
  | otherRecv key =>
      simp only [step] at hstep
      split_ifs at hstep with hlive
      simp only [Option.map_eq_some_iff] at hstep
      obtain ⟨⟨evt, bus⟩, hrecv, rfl⟩ := hstep
      obtain ⟨es, -, rfl⟩ := EventBus.recv_eq_some hrecv
      exact inv_otherRecv h es hlive
  | listReplay => exact absurd rfl hother
  | writeReplay => exact inv_writeReplay h hstep
  | subscribeLive name => exact inv_subscribeLive h hjoins hstep
  | writeLive => exact inv_writeLive h hstep
  | shutdown => exact inv_leave h (by simp [Frame.shutdown]) hstep
  | disconnect => exact inv_leave h (by simp) hstep

/-- One step keeps the invariant, if it is one the client can count on. -/
theorem inv_step {afterSeq : Nat} (hpos : 0 < afterSeq) (hafter : afterSeq < 2 ^ 64)
    (s : StreamSys) (l : StreamLabel) (t : StreamSys) (h : s.Inv afterSeq)
    (hguard : s.Delivers l ∧ s.Joins afterSeq l) (hstep : s.step afterSeq l = some t) :
    t.Inv afterSeq := by
  by_cases hl : l = .listReplay
  · subst hl
    exact inv_listReplay h hafter hpos hstep
  · exact inv_step_other h hl hguard.1 hguard.2 hstep

theorem Initial.inv {s : StreamSys} (h : s.Initial) (afterSeq : Nat) : s.Inv afterSeq := by
  refine ⟨h.store, ⟨h.keys, h.distinct, by simp [h.idle]⟩, by simp [h.idle], by simp [h.start],
    fun _ => h.written, [], ?_, ⟨List.Pairwise.nil, by simp, by simp⟩, by simp [liveKey, h.start]⟩
  simp [seqIDs, frameIDs, ahead, h.start, h.written]

/-- **A stream that joins cleanly resumes without a gap and without a repeat.**  In every
run, over every history, in which appends succeed, the handler's channel does not
overflow and the subscription meets `JoinClean`, the numbers written are strictly
increasing and leave out no stored event between the resume point and the last. -/
theorem streamEvents_gapFree {afterSeq : Nat} (hpos : 0 < afterSeq) (hafter : afterSeq < 2 ^ 64)
    {s t : StreamSys} (hinit : s.Initial) (ls : List StreamLabel)
    (hguard : Run.Guarded (step afterSeq) (fun s l => s.Delivers l ∧ s.Joins afterSeq l) s ls)
    (hrun : Run.exec (step afterSeq) s ls = some t) : t.GapFree afterSeq :=
  (Run.exec_invariant (Inv afterSeq) (inv_step hpos hafter) ls s t (hinit.inv afterSeq) hguard
    hrun).gapFree

/-- A store with two events, and nobody subscribed. -/
def twoStored : StreamSys :=
  { store :=
      { sequence := 2
        bucket := (Bucket.empty.put 1 { id := "1", type := "vm.created" }).put 2
          { id := "2", type := "vm.started" } }
    bus := {} }

theorem twoStored_initial : twoStored.Initial := by
  refine ⟨⟨by decide, ?_, ?_⟩, rfl, rfl, rfl, by simp [twoStored], by simp [twoStored]⟩
  all_goals
    intro n e hget
    rcases Bucket.mem_put hget with ⟨rfl, rfl⟩ | ⟨-, hget⟩
  · decide
  · rcases Bucket.mem_put hget with ⟨rfl, rfl⟩ | ⟨-, hget⟩
    · decide
    · simp at hget
  · decide
  · rcases Bucket.mem_put hget with ⟨rfl, rfl⟩ | ⟨-, hget⟩
    · decide
    · simp at hget

/-- One event replayed, the subscription, one event live. -/
theorem streamEvents_gapFree_replay_then_live :
    ∃ t, Run.exec (step 1) twoStored
        [.listReplay, .writeReplay, .subscribeLive "sse-10.0.0.7:51000",
          .publish { type := "vm.stopped" } 5, .process true 5, .snapshot [1], .send, .writeLive]
        = some t ∧ t.frameIDs = ["2", "3"] ∧ t.GapFree 1 :=
  ⟨_, rfl, by decide, streamEvents_gapFree (by decide) (by decide) twoStored_initial
    [.listReplay, .writeReplay, .subscribeLive "sse-10.0.0.7:51000",
      .publish { type := "vm.stopped" } 5, .process true 5, .snapshot [1], .send, .writeLive]
    (by decide) rfl⟩

/-- The numbers of the frames are determined by their IDs. -/
theorem GapFree.numbers {afterSeq : Nat} {s : StreamSys} (h : s.GapFree afterSeq) {ns : List Nat}
    (hns : s.frameIDs = ns.map toString) :
    ns.Pairwise (· < ·) ∧ ∀ n evt last, s.store.bucket.get? n = some evt → afterSeq < n →
      ns.getLast? = some last → n ≤ last → n ∈ ns := by
  obtain ⟨seqs, hids, hsorted, hall⟩ := h
  have : seqs = ns :=
    List.map_injective_iff.mpr (fun _ _ heq => Nat.repr_injective heq) (hids.symm.trans hns)
  exact this ▸ ⟨hsorted, hall⟩

/-- **The window loses an event.**  Event 3 is stored and fanned out after the replay was
read and before the subscription; the client gets 4 and never 3. -/
theorem streamEvents_gap :
    twoStored.Initial ∧
    ∃ ls t, Run.Guarded (step 2) (fun s l => s.Delivers l) twoStored ls ∧
      Run.exec (step 2) twoStored ls = some t ∧ ¬ t.GapFree 2 := by
  refine ⟨twoStored_initial,
    [.listReplay, .publish { type := "vm.stopped" } 5, .process true 5, .snapshot [],
      .subscribeLive "sse-10.0.0.7:51000", .publish { type := "vm.started" } 6, .process true 6,
      .snapshot [1], .send, .writeLive], _, by decide, rfl, fun h => ?_⟩
  obtain ⟨-, hall⟩ := h.numbers (show _ = [4].map toString by decide)
  have : 3 ∈ [4] := hall 3 _ 4 rfl (by decide) rfl (by decide)
  simp at this

/-- **The window repeats an event.**  Event 3 is stored before the replay is read and
fanned out after the subscription; the client gets it twice. -/
theorem streamEvents_repeat :
    ∃ ls t, Run.Guarded (step 2) (fun s l => s.Delivers l) twoStored ls ∧
      Run.exec (step 2) twoStored ls = some t ∧ t.frameIDs = ["3", "3"] := by
  exact ⟨[.publish { type := "vm.stopped" } 5, .process true 5, .listReplay, .writeReplay,
    .subscribeLive "sse-10.0.0.7:51000", .snapshot [1], .send, .writeLive], _, by decide, rfl,
    by decide⟩

end StreamSys

end VMSmith
