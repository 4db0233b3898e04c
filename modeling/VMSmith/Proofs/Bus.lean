/-
What the event bus promises its users, in every interleaving.

A subscriber gets some of the processed events, in their order and each at most once;
those that were stored carry rising numbers and are in the store before they are handed
to anybody; a subscriber is offered every event whose processing falls between its
subscription and its cancellation; and `Stop` waits for everything accepted before it.

All of this rests on the numbers not wrapping: the counter of the events bucket is a
`uint64`, and after the last one it starts again at zero.

The proof counts positions in the list of processed events.  The events that were put
on a channel are the positions offered while it had room, and these rise with every
round of sends, because a round's subscribers are listed once each.
-/
import VMSmith.Events.BusSystem
import VMSmith.Lib.Run
import Mathlib.Data.List.Sort

namespace VMSmith

/-! ### Positions -/

/-- All positions pick out the whole list. -/
theorem picks_range {α : Type} (l : List α) : (List.range l.length).filterMap (l[·]?) = l := by
  induction l with
  | nil => rfl
  | cons a l ih =>
      rw [List.length_cons, List.range_succ_eq_map, List.filterMap_cons, List.filterMap_map]
      simp only [List.getElem?_cons_zero]
      congr 1

/-- Rising positions pick out a subsequence. -/
theorem picks_sublist {α : Type} {is : List Nat} {l : List α} (hinc : is.Pairwise (· < ·))
    (hlt : ∀ i ∈ is, i < l.length) : (is.filterMap (l[·]?)).Sublist l := by
  have hle : is.Pairwise (· ≤ ·) := hinc.imp Nat.le_of_lt
  have hrange : (List.range l.length).Pairwise (· ≤ ·) := List.pairwise_lt_range.imp Nat.le_of_lt
  have hsub : is.Sublist (List.range l.length) :=
    List.sublist_of_subperm_of_pairwise
      (List.subperm_of_subset (hinc.imp Nat.ne_of_lt) fun i hi => List.mem_range.mpr (hlt i hi))
      hle hrange
  have := hsub.filterMap (l[·]?)
  rwa [picks_range] at this

/-- What was picked stays when the list grows at its end. -/
theorem picks_append {α : Type} {is : List Nat} {l : List α} (m : List α)
    (hlt : ∀ i ∈ is, i < l.length) : is.filterMap ((l ++ m)[·]?) = is.filterMap (l[·]?) := by
  refine List.filterMap_congr fun i hi => ?_
  exact List.getElem?_append_left (hlt i hi)

/-! ### Channels by key -/

section Channels

variable {subs : List Subscriber} {key key' : Nat} {f : List Event → List Event}

theorem channelIn_of_not_mem (h : key ∉ subs.map Subscriber.key) : channelIn subs key = [] := by
  have hnone : subs.find? (fun s => s.key = key) = none := by
    refine List.find?_eq_none.mpr fun s hs => ?_
    rw [decide_eq_true_eq]
    rintro rfl
    exact h (List.mem_map_of_mem hs)
  rw [channelIn, hnone]
  rfl

/-- Each key is listed once, so it is found wherever it stands. -/
theorem channelIn_of_mem (hnodup : (subs.map Subscriber.key).Nodup) {sub : Subscriber}
    (h : sub ∈ subs) : channelIn subs sub.key = sub.ch := by
  induction subs with
  | nil => simp at h
  | cons a subs ih =>
      rw [List.map_cons, List.nodup_cons] at hnodup
      rcases List.mem_cons.mp h with rfl | h
      · simp [channelIn]
      · have hne : a.key ≠ sub.key := by
          intro heq
          exact hnodup.1 (heq ▸ List.mem_map_of_mem h)
        have := ih hnodup.2 h
        rw [channelIn] at this ⊢
        rw [List.find?_cons_of_neg (by simpa using hne), this]

theorem channelIn_perm {subs' : List Subscriber} (hnodup : (subs.map Subscriber.key).Nodup)
    (hperm : subs.Perm subs') : channelIn subs' key = channelIn subs key := by
  have hnodup' : (subs'.map Subscriber.key).Nodup := (hperm.map _).nodup_iff.mp hnodup
  by_cases h : key ∈ subs.map Subscriber.key
  · obtain ⟨sub, hsub, rfl⟩ := List.mem_map.mp h
    rw [channelIn_of_mem hnodup hsub, channelIn_of_mem hnodup' (hperm.mem_iff.mp hsub)]
  · have h' : key ∉ subs'.map Subscriber.key := fun hmem => h ((hperm.map _).mem_iff.mpr hmem)
    rw [channelIn_of_not_mem h, channelIn_of_not_mem h']

@[simp] theorem modifyIn_keys : (modifyIn subs key f).map Subscriber.key = subs.map Subscriber.key := by
  rw [modifyIn, List.map_map]
  refine List.map_congr_left fun s _ => ?_
  by_cases h : s.key = key <;> simp [h]

theorem modifyIn_append (subs subs' : List Subscriber) :
    modifyIn (subs ++ subs') key f = modifyIn subs key f ++ modifyIn subs' key f := by
  rw [modifyIn, List.map_append]
  rfl

theorem channelIn_modifyIn_ne (h : key' ≠ key) :
    channelIn (modifyIn subs key f) key' = channelIn subs key' := by
  induction subs with
  | nil => rfl
  | cons a subs ih =>
      simp only [channelIn, modifyIn, List.map_cons] at ih ⊢
      by_cases ha : a.key = key'
      · simp [ha, h]
      · have : (if a.key = key then { a with ch := f a.ch } else a).key = a.key := by
          by_cases hk : a.key = key <;> simp [hk]
        rw [List.find?_cons_of_neg (by simpa [this] using ha),
          List.find?_cons_of_neg (by simpa using ha), ih]

theorem channelIn_modifyIn_self (hmem : key ∈ subs.map Subscriber.key) :
    channelIn (modifyIn subs key f) key = f (channelIn subs key) := by
  induction subs with
  | nil => simp at hmem
  | cons a subs ih =>
      by_cases ha : a.key = key
      · simp [channelIn, modifyIn, ha]
      · have hmem' : key ∈ subs.map Subscriber.key := by
          simpa [Ne.symm ha] using hmem
        have := ih hmem'
        simp only [channelIn, modifyIn, List.map_cons, if_neg ha] at this ⊢
        rw [List.find?_cons_of_neg (by simpa using ha), List.find?_cons_of_neg (by simpa using ha),
          this]

theorem channelIn_cons_ne {a : Subscriber} (h : a.key ≠ key) :
    channelIn (a :: subs) key = channelIn subs key := by
  rw [channelIn, List.find?_cons_of_neg (by simpa using h), channelIn]

end Channels

namespace BusSys

/-- An event as it was published, before the bus gave it an ID. -/
def unnamed (e : Event) : Event := { e with id := "" }

/-- What the bus promises. -/
structure Faithful (s : BusSys) : Prop where
  /-- A subscriber receives a part of the processed events, in their order. -/
  order : ∀ key, (s.received key).Sublist (s.processed.map Prod.fst)
  /-- What is or was on a channel are the processed events delivered there. -/
  history : ∀ key, s.history key = (s.delivered key).filterMap ((s.processed.map Prod.fst)[·]?)
  /-- Those that were stored are numbered upwards, … -/
  numbered : (s.processed.filterMap Prod.snd).Pairwise (· < ·)
  /-- … have their number as their ID, and are in the store under it since they were
  processed. -/
  stored : ∀ e n, (e, some n) ∈ s.processed → e.id = toString n ∧ s.store.bucket.get? n = some e
  /-- An event whose processing began after a subscription and ended before its
  cancellation was delivered, or met a full channel. -/
  complete : ∀ key a, (key, a) ∈ s.since → ∀ n, a ≤ n → n < s.finished →
    (∀ u, (key, u) ∈ s.till → n < u) →
    n ∈ s.delivered key ∨ ∃ o ∈ s.offers, o.key = key ∧ o.index = n ∧ subscriberBufSize ≤ o.fill
  /-- Events are processed in the order they were accepted, … -/
  queue : s.accepted.map unnamed =
    (s.processed.map Prod.fst).map unnamed ++ s.bus.publishCh.map unnamed
  /-- … and when `Stop` returns all those accepted before it was called have been. -/
  drained : s.stopped = true → ∀ m, s.acceptedAtStop = some m →
    m ≤ s.finished ∧ s.finished ≤ s.processed.length

/-- The sequence counter has a next number when an event is stored. -/
def Unwrapped (s : BusSys) : BusLabel → Prop
  | .process true _ => s.store.sequence + 1 < 2 ^ 64
  | _ => True

instance : ∀ (s : BusSys) (l : BusLabel), Decidable (Unwrapped s l)
  | _, .process true _ => inferInstanceAs (Decidable (_ < _))
  | _, .process false _ | _, .publish _ _ | _, .subscribe _ | _, .cancel _ | _, .drain _
  | _, .recv _ | _, .snapshot _ | _, .send | _, .stop | _, .exit => .isTrue trivial

/-! ### The invariant -/

/-- The subscribers the goroutine still has to send to. -/
def remaining : BusPC → List Nat
  | .sending _ keys => keys
  | _ => []

/-- The subscribers have been read for the event under way. -/
def isSending : BusPC → Bool
  | .sending _ _ => true
  | _ => false

/-- Someone who subscribed before event `n` and had not cancelled when it was finished. -/
def Owed (s : BusSys) (key n : Nat) : Prop :=
  (∃ a, (key, a) ∈ s.since ∧ a ≤ n) ∧ ∀ u, (key, u) ∈ s.till → n < u

/-- What holds of keys, positions and counts, whatever the numbers are. -/
structure Flow (s : BusSys) : Prop where
  nodup : (s.everybody.map Subscriber.key).Nodup
  counted : ∀ key ∈ s.everybody.map Subscriber.key, key ≤ s.bus.subSeq
  idle : current s.bus.pc = none → s.processed.length = s.finished
  busy : ∀ evt, current s.bus.pc = some evt →
    s.processed.length = s.finished + 1 ∧ (s.processed.map Prod.fst)[s.finished]? = some evt
  queue : s.accepted.map unnamed =
    (s.processed.map Prod.fst).map unnamed ++ s.bus.publishCh.map unnamed
  offered : ∀ o ∈ s.offers, o.index < s.processed.length
  rising : ∀ key, (s.delivered key).Pairwise (· < ·)
  history : ∀ key, s.history key = (s.delivered key).filterMap ((s.processed.map Prod.fst)[·]?)
  unread : isSending s.bus.pc = false → ∀ o ∈ s.offers, o.index < s.finished
  once : (remaining s.bus.pc).Nodup
  known : ∀ key ∈ remaining s.bus.pc, key ∈ s.everybody.map Subscriber.key
  unsent : ∀ key ∈ remaining s.bus.pc, ∀ o ∈ s.offers, o.key = key → o.index < s.finished
  subscribed : ∀ key a, (key, a) ∈ s.since →
    key ∈ s.bus.subscribers.map Subscriber.key ∨ ∃ u, (key, u) ∈ s.till
  cancelled : ∀ key u, (key, u) ∈ s.till → u ≤ s.finished
  complete : ∀ key n, s.Owed key n → n < s.finished → ∃ o ∈ s.offers, o.key = key ∧ o.index = n
  underway : isSending s.bus.pc = true → ∀ key, s.Owed key s.finished →
    key ∈ remaining s.bus.pc ∨ ∃ o ∈ s.offers, o.key = key ∧ o.index = s.finished
  stop : ∀ m, s.acceptedAtStop = some m → m ≤ s.accepted.length
  halting : s.stopping = true ∨ s.stopped = true → s.acceptedAtStop.isSome
  stopped : s.stopped = true → ∀ m, s.acceptedAtStop = some m → m ≤ s.finished

structure Inv (s : BusSys) : Prop extends Flow s where
  numbered : (s.processed.filterMap Prod.snd).Pairwise (· < ·)
  stored : ∀ e n, (e, some n) ∈ s.processed →
    n ≤ s.store.sequence ∧ e.id = toString n ∧ s.store.bucket.get? n = some e

variable {s s' : BusSys}

theorem flow_init (store : EventStore) : Flow (init store) where
  nodup := List.nodup_nil
  counted := fun key hkey => absurd hkey List.not_mem_nil
  idle := fun _ => rfl
  busy := fun evt hevt => by simp [init, current] at hevt
  queue := rfl
  offered := fun o ho => absurd ho List.not_mem_nil
  rising := fun key => List.Pairwise.nil
  history := fun key => rfl
  unread := fun _ o ho => absurd ho List.not_mem_nil
  once := List.nodup_nil
  known := fun key hkey => absurd hkey List.not_mem_nil
  unsent := fun key hkey => absurd hkey List.not_mem_nil
  subscribed := fun key a h => absurd h List.not_mem_nil
  cancelled := fun key u h => absurd h List.not_mem_nil
  complete := fun key n _ hn => absurd hn (Nat.not_lt_zero n)
  underway := fun h => by simp [init, isSending] at h
  stop := fun m hm => by simp [init] at hm
  halting := fun h => by simp [init] at h
  stopped := fun h => by simp [init] at h

theorem inv_init (store : EventStore) : Inv (init store) where
  toFlow := flow_init store
  numbered := List.Pairwise.nil
  stored := fun _ _ he => absurd he List.not_mem_nil

theorem Flow.delivered_lt (hs : Flow s) {key n : Nat} (h : n ∈ s.delivered key) :
    n < s.processed.length := by
  obtain ⟨o, ho, rfl⟩ := List.mem_map.mp h
  exact hs.offered o (List.mem_of_mem_filter ho)

theorem Flow.finished_le (hs : Flow s) : s.finished ≤ s.processed.length := by
  cases hpc : current s.bus.pc with
  | none => exact (hs.idle hpc).ge
  | some evt =>
      have := (hs.busy evt hpc).1
      omega

theorem Flow.finished_lt (hs : Flow s) (h : isSending s.bus.pc = true) :
    s.finished < s.processed.length := by
  cases hpc : s.bus.pc with
  | idle | fanOut evt => simp [hpc, isSending] at h
  | sending evt keys =>
      have := (hs.busy evt (by rw [hpc]; rfl)).1
      omega

/-- The invariant gives what is promised. -/
theorem Inv.faithful (hs : Inv s) : Faithful s where
  order := by
    intro key
    have hsub : (s.history key).Sublist (s.processed.map Prod.fst) := by
      rw [hs.history key]
      refine picks_sublist (hs.rising key) fun n hn => ?_
      rw [List.length_map]
      exact hs.delivered_lt hn
    refine List.Sublist.trans ?_ hsub
    have : (s.taken.filter fun t => t.key = key && t.received).Sublist
        (s.taken.filter fun t => t.key = key) := by
      refine List.monotone_filter_right _ fun t ht => ?_
      exact (Bool.and_eq_true _ _ ▸ ht).1
    exact (this.map Taken.event).trans (List.sublist_append_left _ _)
  history := hs.history
  numbered := hs.numbered
  stored := fun e n he => (hs.stored e n he).2
  complete := by
    intro key a ha n han hn htill
    obtain ⟨o, ho, rfl, rfl⟩ := hs.complete key n ⟨⟨a, ha, han⟩, htill⟩ hn
    by_cases hfull : subscriberBufSize ≤ o.fill
    · exact .inr ⟨o, ho, rfl, rfl, hfull⟩
    · refine .inl (List.mem_map.mpr ⟨o, List.mem_filter.mpr ⟨ho, ?_⟩, rfl⟩)
      simpa using hfull
  queue := hs.queue
  drained := by
    intro hstopped m hm
    exact ⟨hs.stopped hstopped m hm, hs.finished_le⟩

/-! ### One step after the other -/

theorem publish_cases (b : EventBus) (evt : Event) (now : Nat) : b.publish evt now = b ∨
    ∃ e, b.publish evt now = { b with publishCh := b.publishCh ++ [e] } := by
  unfold EventBus.publish
  dsimp only
  split
  · exact .inr ⟨_, rfl⟩
  · exact .inl rfl

theorem flow_publish (hs : Flow s) {evt : Event} {now : Nat}
    (h : step s (.publish evt now) = some s') : Flow s' := by
  obtain rfl := Option.some.inj h
  rcases publish_cases s.bus evt now with hb | ⟨e, hb⟩
  · rw [hb, List.drop_length, List.append_nil]
    exact hs
  · rw [hb]
    dsimp only
    rw [List.drop_left' rfl]
    refine { hs with queue := ?_, stop := fun m hm => ?_ }
    · show (s.accepted ++ [e]).map unnamed =
        (s.processed.map Prod.fst).map unnamed ++ (s.bus.publishCh ++ [e]).map unnamed
      rw [List.map_append, hs.queue, List.map_append, List.append_assoc]
    · have := hs.stop m hm
      show m ≤ (s.accepted ++ [e]).length
      rw [List.length_append]
      omega

theorem flow_stop (hs : Flow s) (h : step s .stop = some s') : Flow s' := by
  obtain rfl := Option.some.inj h
  cases hat : s.acceptedAtStop with
  | some m =>
      refine { hs with stop := ?_, halting := fun _ => rfl, stopped := ?_ }
      · exact fun n hn => hs.stop n (hat.trans hn)
      · exact fun hstopped n hn => hs.stopped hstopped n (hat.trans hn)
  | none =>
      refine { hs with stop := ?_, halting := fun _ => rfl, stopped := ?_ }
      · rintro m ⟨⟩
        exact le_rfl
      · intro hstopped m _
        have := hs.halting (.inr hstopped)
        rw [hat] at this
        exact absurd this (by decide)

theorem flow_exit (hs : Flow s) (h : step s .exit = some s') : Flow s' := by
  simp only [step] at h
  split_ifs at h with hexit
  obtain rfl := Option.some.inj h
  obtain ⟨hstopping, hempty, hidle, -⟩ := hexit
  refine { hs with halting := fun _ => hs.halting (.inl hstopping), stopped := fun _ m hm => ?_ }
  have hlen := congrArg List.length hs.queue
  have hproc := hs.idle (by rw [hidle]; rfl)
  have := hs.stop m hm
  simp only [List.length_map, List.length_append, hempty, List.length_nil] at hlen
  show m ≤ s.finished
  omega

/-- A new key has no channel yet, and after it an empty one. -/
theorem flow_subscribe (hs : Flow s) {name : String} (h : step s (.subscribe name) = some s') :
    Flow s' := by
  obtain rfl := Option.some.inj h
  set new : Subscriber := { key := s.bus.subSeq + 1, name := name } with hnew
  have hfresh : new.key ∉ s.everybody.map Subscriber.key := fun hmem =>
    absurd (hs.counted _ hmem) (Nat.not_succ_le_self _)
  have hperm : (new :: s.everybody).Perm (s.bus.subscribers ++ [new] ++ s.detached) := by
    rw [List.append_assoc]
    exact List.perm_middle.symm
  have hnodup : ((new :: s.everybody).map Subscriber.key).Nodup :=
    List.nodup_cons.mpr ⟨hfresh, hs.nodup⟩
  have hchannel : ∀ key, channelIn (s.bus.subscribers ++ [new] ++ s.detached) key = s.channel key := by
    intro key
    rw [channelIn_perm hnodup hperm]
    by_cases hkey : new.key = key
    · rw [← hkey, BusSys.channel, channelIn_of_not_mem hfresh,
        channelIn_of_mem hnodup List.mem_cons_self]
    · exact channelIn_cons_ne hkey
  have hkeys : ∀ key, key ∈ (s.bus.subscribers ++ [new] ++ s.detached).map Subscriber.key ↔
      key = new.key ∨ key ∈ s.everybody.map Subscriber.key := by
    intro key
    rw [← (hperm.map Subscriber.key).mem_iff, List.map_cons, List.mem_cons]
  have howed : ∀ key n, n < s.processed.length →
      Owed { s with since := (new.key, s.processed.length) :: s.since } key n → s.Owed key n := by
    rintro key n hn ⟨⟨a, ha, han⟩, htill⟩
    refine ⟨?_, htill⟩
    rcases List.mem_cons.mp ha with heq | ha
    · rw [Prod.mk.injEq] at heq
      omega
    · exact ⟨a, ha, han⟩
  refine { hs with
    nodup := (hperm.map _).nodup_iff.mp hnodup, counted := fun key hkey => ?_
    history := fun key => ?_, known := fun key hkey => (hkeys key).mpr (.inr (hs.known key hkey))
    subscribed := fun key a ha => ?_, complete := fun key n ho hn => ?_
    underway := fun hsending key ho => ?_ }
  · rcases (hkeys key).mp hkey with rfl | hkey
    · exact le_rfl
    · exact Nat.le_succ_of_le (hs.counted key hkey)
  · show (s.taken.filter fun t => t.key = key).map Taken.event ++
      channelIn (s.bus.subscribers ++ [new] ++ s.detached) key = _
    rw [hchannel key]
    exact hs.history key
  · rcases List.mem_cons.mp ha with heq | ha
    · rw [Prod.mk.injEq] at heq
      left
      rw [heq.1]
      show new.key ∈ (s.bus.subscribers ++ [new]).map Subscriber.key
      exact List.mem_map_of_mem (List.mem_append_right _ List.mem_cons_self)
    · refine (hs.subscribed key a ha).imp_left fun hmem => ?_
      obtain ⟨sub, hsub, rfl⟩ := List.mem_map.mp hmem
      exact List.mem_map_of_mem (List.mem_append_left _ hsub)
  · have hn' : n < s.finished := hn
    have := hs.finished_le
    exact hs.complete key n (howed key n (by omega) ho) hn'
  · refine hs.underway hsending key (howed key s.finished ?_ ho)
    have := hs.finished_lt hsending
    omega

/-- The channel of who cancels goes with it, to the detached ones. -/
theorem flow_cancel (hs : Flow s) {key : Nat} (h : step s (.cancel key) = some s') : Flow s' := by
  obtain rfl := Option.some.inj h
  set kept := s.bus.subscribers.filter (fun sub => sub.key ≠ key) with hkept
  set gone := s.bus.subscribers.filter (fun sub => sub.key = key) with hgone
  set till := if s.bus.subscribers.any (fun sub => sub.key = key) then (key, s.finished) :: s.till
    else s.till with htill
  have hperm : s.everybody.Perm (kept ++ (gone ++ s.detached)) := by
    have hsplit : (gone ++ kept).Perm s.bus.subscribers := by
      have := List.filter_append_perm (fun sub : Subscriber => sub.key = key) s.bus.subscribers
      simpa [hkept, hgone] using this
    rw [← List.append_assoc]
    exact ((hsplit.symm.trans List.perm_append_comm).append_right _)
  have hkeys : ∀ k, k ∈ s.everybody.map Subscriber.key ↔
      k ∈ (kept ++ (gone ++ s.detached)).map Subscriber.key :=
    fun k => (hperm.map Subscriber.key).mem_iff
  have hold : ∀ k u, (k, u) ∈ s.till → (k, u) ∈ till := by
    intro k u hu
    rw [htill]
    split_ifs
    · exact List.mem_cons_of_mem _ hu
    · exact hu
  have howed : ∀ k n, Owed { s with till := till } k n → s.Owed k n :=
    fun k n ho => ⟨ho.1, fun u hu => ho.2 u (hold k u hu)⟩
  refine { hs with
    nodup := (hperm.map _).nodup_iff.mp hs.nodup
    counted := fun k hk => hs.counted k ((hkeys k).mpr hk)
    history := fun k => ?_, known := fun k hk => (hkeys k).mp (hs.known k hk)
    subscribed := fun k a ha => ?_, cancelled := fun k u hu => ?_
    complete := fun k n ho hn => hs.complete k n (howed k n ho) hn
    underway := fun hsending k ho => hs.underway hsending k (howed k _ ho) }
  · show (s.taken.filter fun t => t.key = k).map Taken.event ++
      channelIn (kept ++ (gone ++ s.detached)) k = _
    rw [channelIn_perm hs.nodup hperm]
    exact hs.history k
  · rcases hs.subscribed k a ha with hmem | ⟨u, hu⟩
    · obtain ⟨sub, hsub, rfl⟩ := List.mem_map.mp hmem
      by_cases hkey : sub.key = key
      · have hany : s.bus.subscribers.any (fun sub => sub.key = key) = true :=
          List.any_eq_true.mpr ⟨sub, hsub, by simpa using hkey⟩
        right
        refine ⟨s.finished, ?_⟩
        show (sub.key, s.finished) ∈ till
        rw [htill, if_pos hany, hkey]
        exact List.mem_cons_self
      · left
        show sub.key ∈ kept.map Subscriber.key
        exact List.mem_map_of_mem (List.mem_filter.mpr ⟨hsub, by simpa using hkey⟩)
    · exact .inr ⟨u, hold k u hu⟩
  · have hu' : (k, u) ∈ till := hu
    rw [htill] at hu'
    split_ifs at hu'
    · rcases List.mem_cons.mp hu' with heq | hu'
      · rw [Prod.mk.injEq] at heq
        exact heq.2.le
      · exact hs.cancelled k u hu'
    · exact hs.cancelled k u hu'

/-- What is taken off a channel has been on it. -/
theorem flow_take (hs : Flow s) {key : Nat} {received : Bool} (h : s.take key received = some s') :
    Flow s' := by
  unfold take at h
  split at h
  · simp at h
  · next evt rest hchannel =>
      obtain rfl := Option.some.inj h
      have hmem : key ∈ s.everybody.map Subscriber.key := by
        by_contra hmem
        rw [BusSys.channel, channelIn_of_not_mem hmem] at hchannel
        simp at hchannel
      have hbody : modifyIn s.bus.subscribers key (fun _ => rest) ++
          modifyIn s.detached key (fun _ => rest) = modifyIn s.everybody key fun _ => rest :=
        (modifyIn_append _ _).symm
      have hkeys : (modifyIn s.bus.subscribers key (fun _ => rest) ++
          modifyIn s.detached key (fun _ => rest)).map Subscriber.key =
            s.everybody.map Subscriber.key := by
        rw [hbody, modifyIn_keys]
      refine { hs with
        nodup := hkeys ▸ hs.nodup, counted := fun k hk => hs.counted k (hkeys ▸ hk)
        history := fun k => ?_, known := fun k hk => hkeys ▸ hs.known k hk
        subscribed := fun k a ha => ?_ }
      · show ((s.taken ++ [Taken.mk key evt received]).filter fun t => t.key = k).map Taken.event ++
          channelIn (modifyIn s.bus.subscribers key (fun _ => rest) ++
            modifyIn s.detached key (fun _ => rest)) k = _
        refine Eq.trans ?_ (hs.history k)
        rw [hbody, List.filter_append, List.map_append]
        by_cases hk : k = key
        · subst hk
          rw [channelIn_modifyIn_self hmem]
          have : s.channel k = evt :: rest := hchannel
          simp [BusSys.history, this]
        · rw [channelIn_modifyIn_ne hk]
          simp [BusSys.history, BusSys.channel, Ne.symm hk]
      · refine (hs.subscribed k a ha).imp_left fun hsub => ?_
        show k ∈ (modifyIn s.bus.subscribers key fun _ => rest).map Subscriber.key
        rwa [modifyIn_keys]

/-- What one call of `process` does to the bus and to the store. -/
theorem process_cases {b b' : EventBus} {store store' : EventStore} {persisted : Bool} {now : Nat}
    (h : b.process store persisted now = some (b', store')) :
    ∃ evt rest e, b.pc = .idle ∧ b.publishCh = evt :: rest ∧ unnamed e = unnamed evt ∧
      b' = { b with publishCh := rest, pc := .fanOut e } ∧
      if persisted then
        e = { evt with id := toString store.nextSequence } ∧ store' = (store.appendEvent evt).2
      else store' = store := by
  unfold EventBus.process at h
  split at h
  · next evt rest hpc hch =>
      cases persisted with
      | true =>
          simp only [if_true, Option.some.injEq, Prod.mk.injEq] at h
          obtain ⟨rfl, rfl⟩ := h
          exact ⟨evt, rest, { evt with id := toString store.nextSequence }, hpc, hch, rfl, rfl,
            rfl, rfl⟩
      | false =>
          simp only [Bool.false_eq_true, if_false, Option.some.injEq, Prod.mk.injEq] at h
          obtain ⟨rfl, rfl⟩ := h
          exact ⟨evt, rest, { evt with id := "transient-" ++ toString now }, hpc, hch, rfl, rfl, rfl⟩
  · simp at h

/-- A step of `process`, as far as it changes the bus and what was processed. -/
theorem process_step {persisted : Bool} {now : Nat} (h : step s (.process persisted now) = some s') :
    ∃ evt rest e store, s.stopped ≠ true ∧ s.bus.pc = .idle ∧ s.bus.publishCh = evt :: rest ∧
      unnamed e = unnamed evt ∧
      (if persisted then
        e = { evt with id := toString s.store.nextSequence } ∧ store = (s.store.appendEvent evt).2
      else store = s.store) ∧
      s' = { s with
        bus := { s.bus with publishCh := rest, pc := .fanOut e }
        store := store
        processed := s.processed ++ [(e, if persisted then some store.sequence else none)] } := by
  have hstopped : ¬ s.stopped = true := fun ht => by simp [step, ht] at h
  rw [step, if_neg hstopped] at h
  obtain ⟨⟨b, store⟩, hprocess, rfl⟩ := Option.map_eq_some_iff.mp h
  obtain ⟨evt, rest, e, hpc, hch, hname, rfl, hstore⟩ := process_cases hprocess
  exact ⟨evt, rest, e, store, hstopped, hpc, hch, hname, hstore, rfl⟩

/-- The earlier events stay where they are. -/
theorem flow_process (hs : Flow s) {persisted : Bool} {now : Nat}
    (h : step s (.process persisted now) = some s') : Flow s' := by
  obtain ⟨evt, rest, e, store, hstopped, hpc, hch, hname, -, rfl⟩ := process_step h
  have hlen := hs.idle (by rw [hpc]; rfl)
  set number := if persisted then some store.sequence else none
  have hfst : (s.processed ++ [(e, number)]).map Prod.fst = s.processed.map Prod.fst ++ [e] :=
    List.map_append
  refine { hs with
    idle := fun hnone => by simp [current] at hnone, busy := ?_
    queue := ?_
    offered := fun o ho => ?_, history := fun key => ?_
    unread := fun _ o ho => hs.unread (by rw [hpc]; rfl) o ho
    once := List.nodup_nil
    known := fun key hkey => absurd hkey List.not_mem_nil
    unsent := fun key hkey => absurd hkey List.not_mem_nil
    underway := fun hsending => by simp [isSending] at hsending
    stopped := fun hst => absurd hst hstopped }
  · rintro e' ⟨⟩
    refine ⟨?_, ?_⟩
    · show (s.processed ++ [(e, number)]).length = s.finished + 1
      rw [List.length_append, hlen]
      rfl
    · show ((s.processed ++ [(e, number)]).map Prod.fst)[s.finished]? = some e
      rw [hfst, ← hlen, ← s.processed.length_map Prod.fst, List.getElem?_concat_length]
  · show s.accepted.map unnamed =
      ((s.processed ++ [(e, number)]).map Prod.fst).map unnamed ++ rest.map unnamed
    rw [hs.queue, hch, hfst, List.map_append, List.map_cons, List.append_assoc]
    rw [List.map_singleton, hname, List.singleton_append]
  · have := hs.offered o ho
    show o.index < (s.processed ++ [(e, number)]).length
    rw [List.length_append]
    omega
  · show s.history key = (s.delivered key).filterMap
      (((s.processed ++ [(e, number)]).map Prod.fst)[·]?)
    rw [hfst, picks_append _ fun n hn => ?_]
    · exact hs.history key
    · rw [List.length_map]
      exact hs.delivered_lt hn

/-- The number an event was given is above every earlier one. -/
theorem inv_process (hs : Inv s) {persisted : Bool} {now : Nat}
    (hlt : Unwrapped s (.process persisted now)) (h : step s (.process persisted now) = some s') :
    Inv s' := by
  have hflow := flow_process hs.toFlow h
  obtain ⟨evt, rest, e, store, -, -, -, -, hstore, rfl⟩ := process_step h
  set number := if persisted then some store.sequence else none with hnumber
  have hnumbers : (∀ n e', (e', some n) ∈ s.processed →
      n ≤ store.sequence ∧ store.bucket.get? n = some e') ∧ ∀ n, number = some n →
        s.store.sequence < n ∧ n ≤ store.sequence ∧ e.id = toString n ∧
          store.bucket.get? n = some e := by
    cases persisted with
    | false =>
        have hstore : store = s.store := hstore
        subst hstore
        refine ⟨fun n e' he => ⟨(hs.stored e' n he).1, (hs.stored e' n he).2.2⟩, ?_⟩
        intro n hn
        simp [hnumber] at hn
    | true =>
        obtain ⟨rfl, rfl⟩ := hstore
        have hlt' : s.store.sequence + 1 < 2 ^ 64 := hlt
        have hseq : s.store.nextSequence = s.store.sequence + 1 := Nat.mod_eq_of_lt hlt'
        refine ⟨fun n e' he => ?_, ?_⟩
        · obtain ⟨hle, -, hget⟩ := hs.stored e' n he
          have hne : n ≠ s.store.nextSequence := by omega
          refine ⟨?_, (Bucket.get?_put_ne _ _ hne).trans hget⟩
          show n ≤ s.store.nextSequence
          omega
        · intro n hn
          obtain rfl : s.store.nextSequence = n := Option.some.inj hn
          refine ⟨?_, le_rfl, rfl, Bucket.get?_put_self _ _ _⟩
          show s.store.sequence < s.store.nextSequence
          omega
  obtain ⟨hearlier, hlater⟩ := hnumbers
  refine { toFlow := hflow, numbered := ?_, stored := ?_ }
  · show ((s.processed ++ [(e, number)]).filterMap Prod.snd).Pairwise (· < ·)
    rw [List.filterMap_append, List.pairwise_append]
    refine ⟨hs.numbered, ?_, fun m hm n hn => ?_⟩
    · cases number <;> simp
    · obtain ⟨⟨e', _⟩, he', rfl⟩ := List.mem_filterMap.mp hm
      have hn' : number = some n := by simpa using hn
      have := (hs.stored e' m he').1
      have := (hlater n hn').1
      omega
  · intro e' n he'
    rcases List.mem_append.mp he' with he' | he'
    · exact ⟨(hearlier n e' he').1, (hs.stored e' n he').2.1, (hearlier n e' he').2⟩
    · have heq : e' = e ∧ number = some n := by
        have := List.mem_singleton.mp he'
        rw [Prod.mk.injEq] at this
        exact ⟨this.1, this.2.symm⟩
      obtain ⟨rfl, hn⟩ := heq
      exact (hlater n hn).2

/-- When nobody is left to send to, the event is finished. -/
theorem flow_afterSend (hs : Flow s) {evt : Event} {keys : List Nat}
    (hpc : s.bus.pc = .sending evt keys) :
    Flow { s with
      bus := { s.bus with pc := EventBus.afterSend evt keys }
      finished := s.finish { s.bus with pc := EventBus.afterSend evt keys } } := by
  cases keys with
  | cons k ks =>
      have hbus : { s.bus with pc := EventBus.afterSend evt (k :: ks) } = s.bus := by
        rw [EventBus.afterSend, ← hpc]
      rw [hbus, finish, if_neg (by rw [hpc]; simp)]
      exact hs
  | nil =>
      obtain ⟨hlen, -⟩ := hs.busy evt (by rw [hpc]; rfl)
      have hfinish : s.finish { s.bus with pc := EventBus.afterSend evt [] } = s.finished + 1 := rfl
      rw [hfinish]
      refine { hs with
        idle := fun _ => hlen, busy := fun _ hevt => by simp [EventBus.afterSend, current] at hevt
        unread := fun _ o ho => hlen ▸ hs.offered o ho
        once := List.nodup_nil
        known := fun key hkey => absurd hkey List.not_mem_nil
        unsent := fun key hkey => absurd hkey List.not_mem_nil
        cancelled := fun key u hu => Nat.le_succ_of_le (hs.cancelled key u hu)
        complete := fun key n ho hn => ?_
        underway := fun hsending => by simp [EventBus.afterSend, isSending] at hsending
        stopped := fun hst m hm => Nat.le_succ_of_le (hs.stopped hst m hm) }
      have hn' : n < s.finished + 1 := hn
      rcases Nat.lt_succ_iff_lt_or_eq.mp hn' with hlt | rfl
      · exact hs.complete key n ho hlt
      · rcases hs.underway (by rw [hpc]; rfl) key ho with hkey | hoffer
        · rw [hpc] at hkey
          exact absurd hkey List.not_mem_nil
        · exact hoffer

/-- Everybody who has subscribed before this and has not cancelled is read. -/
theorem flow_snapshot (hs : Flow s) {order : List Nat} (h : step s (.snapshot order) = some s') :
    Flow s' := by
  obtain ⟨b, hb, rfl⟩ := Option.map_eq_some_iff.mp h
  unfold EventBus.snapshot at hb
  split at hb
  · next evt hpc =>
      split_ifs at hb with hperm
      obtain rfl := Option.some.inj hb
      have hsub : ∀ key ∈ order, key ∈ s.everybody.map Subscriber.key := by
        intro key hkey
        rw [everybody, List.map_append]
        exact List.mem_append_left _ (hperm.mem_iff.mp hkey)
      have hsending : Flow { s with bus := { s.bus with pc := .sending evt order } } := by
        refine { hs with
          idle := fun hnone => by simp [current] at hnone
          busy := fun e he => hs.busy e (by rw [hpc]; exact he)
          unread := fun hnone => by simp [isSending] at hnone
          once := ?_, known := hsub
          unsent := fun key _ o ho _ => hs.unread (by rw [hpc]; rfl) o ho
          underway := fun _ key ho => .inl ?_ }
        · have := hs.nodup
          rw [everybody, List.map_append] at this
          exact hperm.nodup_iff.mpr this.of_append_left
        · obtain ⟨⟨a, ha, -⟩, htill⟩ := ho
          rcases hs.subscribed key a ha with hmem | ⟨u, hu⟩
          · exact hperm.mem_iff.mpr hmem
          · have := hs.cancelled key u hu
            have hlt : s.finished < u := htill u hu
            omega
      exact flow_afterSend hsending rfl
  · simp at hb

/-- An offer to a channel with room is a delivery. -/
theorem delivered_offer (new : Offer) (key : Nat) :
    { s with offers := s.offers ++ [new] }.delivered key = s.delivered key ++
      if new.key = key ∧ new.fill < subscriberBufSize then [new.index] else [] := by
  unfold delivered
  rw [List.filter_append, List.map_append]
  rw [List.filter_singleton]
  by_cases h : new.key = key ∧ new.fill < subscriberBufSize
  · simp [h]
  · have hno : (decide (new.key = key) && decide (new.fill < subscriberBufSize)) = false := by
      rw [← Bool.decide_and, decide_eq_false h]
    rw [if_neg h, hno]
    rfl

/-- An event is put on a channel under a higher position than any before it. -/
theorem flow_send (hs : Flow s) (h : step s .send = some s') : Flow s' := by
  simp only [step] at h
  split at h
  · next evt key keys hpc =>
      have hsend : s.bus.send = some { s.bus.modifyChannel key (EventBus.offer evt) with
          pc := EventBus.afterSend evt keys } := by
        rw [EventBus.send, hpc]
      rw [hsend, Option.map_some] at h
      obtain rfl := Option.some.inj h
      obtain ⟨hlen, hevt⟩ := hs.busy evt (by rw [hpc]; rfl)
      have hindex : s.processed.length - 1 = s.finished := by omega
      have honce := hs.once
      rw [hpc] at honce
      obtain ⟨hkey, hnodup⟩ := List.nodup_cons.mp honce
      have hunsent := hs.unsent key (by rw [hpc]; exact List.mem_cons_self)
      have hmem := hs.known key (by rw [hpc]; exact List.mem_cons_self)
      have hbody : modifyIn s.bus.subscribers key (EventBus.offer evt) ++
          modifyIn s.detached key (EventBus.offer evt) =
            modifyIn s.everybody key (EventBus.offer evt) := (modifyIn_append _ _).symm
      have hkeys : (modifyIn s.bus.subscribers key (EventBus.offer evt) ++
          modifyIn s.detached key (EventBus.offer evt)).map Subscriber.key =
            s.everybody.map Subscriber.key := by
        rw [hbody, modifyIn_keys]
      set new : Offer := ⟨key, s.processed.length - 1, (s.channel key).length⟩
      have hnewIndex : new.index = s.finished := hindex
      have hsending : Flow { s with
          bus := { s.bus.modifyChannel key (EventBus.offer evt) with pc := .sending evt keys }
          detached := modifyIn s.detached key (EventBus.offer evt)
          offers := s.offers ++ [new] } := by
        refine { hs with
          nodup := hkeys ▸ hs.nodup, counted := fun k hk => hs.counted k (hkeys ▸ hk)
          idle := fun hnone => by simp [current] at hnone
          busy := fun e he => hs.busy e (by rw [hpc]; exact he)
          offered := fun o ho => ?_, rising := fun k => ?_, history := fun k => ?_
          unread := fun hnone => by simp [isSending] at hnone
          once := hnodup
          known := fun k hk => hkeys ▸ hs.known k (by rw [hpc]; exact List.mem_cons_of_mem _ hk)
          unsent := fun k hk o ho hok => ?_, subscribed := fun k a ha => ?_
          complete := fun k n ho hn => ?_, underway := fun _ k ho => ?_ }
        · rcases List.mem_append.mp ho with ho | ho
          · exact hs.offered o ho
          · rw [List.mem_singleton.mp ho]
            show s.processed.length - 1 < s.processed.length
            omega
        · show ({ s with offers := s.offers ++ [new] }.delivered k).Pairwise (· < ·)
          rw [delivered_offer, List.pairwise_append]
          refine ⟨hs.rising k, by split_ifs <;> simp, fun m hm n hn => ?_⟩
          split_ifs at hn with hput
          · obtain ⟨o, ho, rfl⟩ := List.mem_map.mp hm
            obtain ⟨ho, hok⟩ := List.mem_filter.mp ho
            rw [Bool.and_eq_true, decide_eq_true_eq] at hok
            rw [List.mem_singleton.mp hn]
            rw [hnewIndex]
            exact hunsent o ho (hok.1.trans hput.1.symm)
          · simp at hn
        · show (s.taken.filter fun t => t.key = k).map Taken.event ++
            channelIn (modifyIn s.bus.subscribers key (EventBus.offer evt) ++
              modifyIn s.detached key (EventBus.offer evt)) k =
            ({ s with offers := s.offers ++ [new] }.delivered k).filterMap
              ((s.processed.map Prod.fst)[·]?)
          rw [delivered_offer, hbody, List.filterMap_append, ← hs.history k]
          by_cases hk : key = k
          · subst hk
            rw [channelIn_modifyIn_self hmem, EventBus.offer]
            by_cases hfill : (channelIn s.everybody key).length < subscriberBufSize
            · rw [if_pos hfill, if_pos ⟨rfl, hfill⟩]
              rw [List.filterMap_cons, hnewIndex, hevt, ← List.append_assoc]
              rfl
            · rw [if_neg hfill, if_neg fun h => hfill h.2, List.filterMap_nil, List.append_nil]
              rfl
          · rw [channelIn_modifyIn_ne (Ne.symm hk), if_neg fun h => hk h.1, List.filterMap_nil,
              List.append_nil]
            rfl
        · rcases List.mem_append.mp ho with ho | ho
          · exact hs.unsent k (by rw [hpc]; exact List.mem_cons_of_mem _ hk) o ho hok
          · rw [List.mem_singleton.mp ho] at hok
            obtain rfl : key = k := hok
            exact absurd hk hkey
        · refine (hs.subscribed k a ha).imp_left fun hsub => ?_
          show k ∈ (modifyIn s.bus.subscribers key (EventBus.offer evt)).map Subscriber.key
          rwa [modifyIn_keys]
        · obtain ⟨o, hoffer, hok⟩ := hs.complete k n ho hn
          exact ⟨o, List.mem_append_left _ hoffer, hok⟩
        · rcases hs.underway (by rw [hpc]; rfl) k ho with hk | ⟨o, hoffer, hok⟩
          · rw [hpc] at hk
            rcases List.mem_cons.mp hk with rfl | hk
            · exact .inr ⟨new, List.mem_append_right _ List.mem_cons_self, rfl, hindex⟩
            · exact .inl hk
          · exact .inr ⟨o, List.mem_append_left _ hoffer, hok⟩
      exact flow_afterSend hsending rfl
  · simp at h

theorem flow_step {l : BusLabel} (hs : Flow s) (h : step s l = some s') : Flow s' := by
  cases l with
  | publish evt now => exact flow_publish hs h
  | subscribe name => exact flow_subscribe hs h
  | cancel key => exact flow_cancel hs h
  | drain key =>
      simp only [step] at h
      split_ifs at h
      exact flow_take hs h
  | recv key => exact flow_take hs h
  | process persisted now => exact flow_process hs h
  | snapshot order => exact flow_snapshot hs h
  | send => exact flow_send hs h
  | stop => exact flow_stop hs h
  | exit => exact flow_exit hs h

/-- What a step makes of the state. -/
inductive BusStep (s : BusSys) : BusLabel → BusSys → Prop
  | published (evt : Event) (now : Nat) (more : List Event) : BusStep s (.publish evt now) { s with
      bus := { s.bus with publishCh := s.bus.publishCh ++ more }, accepted := s.accepted ++ more }
  | subscribed (name : String) : BusStep s (.subscribe name) { s with
      bus := (s.bus.subscribe name).2, since := (s.bus.subSeq + 1, s.processed.length) :: s.since }
  | cancelled (key : Nat) (till : List (Nat × Nat)) : BusStep s (.cancel key) { s with
      bus := s.bus.cancel key
      detached := s.bus.subscribers.filter (fun sub => sub.key = key) ++ s.detached
      till := till }
  | took (l : BusLabel) (key : Nat) (received : Bool) (evt : Event) (rest : List Event)
      (hl : l = .recv key ∨ l = .drain key ∧ key ∈ s.detached.map Subscriber.key)
      (hchannel : s.channel key = evt :: rest) : BusStep s l { s with
      bus := s.bus.modifyChannel key fun _ => rest
      detached := modifyIn s.detached key fun _ => rest
      taken := s.taken ++ [⟨key, evt, received⟩] }
  | stored (persisted : Bool) (now : Nat) (rest : List Event) (e : Event) (store : EventStore)
      (hpc : s.bus.pc = .idle) : BusStep s (.process persisted now) { s with
      bus := { s.bus with publishCh := rest, pc := .fanOut e }
      store := store
      processed := s.processed ++ [(e, if persisted then some store.sequence else none)] }
  | listed (order : List Nat) (evt : Event) (hpc : s.bus.pc = .fanOut evt) :
      BusStep s (.snapshot order) { s with
        bus := { s.bus with pc := EventBus.afterSend evt order }
        finished := s.finish { s.bus with pc := EventBus.afterSend evt order } }
  | sent (evt : Event) (key : Nat) (keys : List Nat) (hpc : s.bus.pc = .sending evt (key :: keys)) :
      BusStep s .send { s with
        bus := { s.bus.modifyChannel key (EventBus.offer evt) with pc := EventBus.afterSend evt keys }
        detached := modifyIn s.detached key (EventBus.offer evt)
        offers := s.offers ++ [⟨key, s.processed.length - 1, (s.channel key).length⟩]
        finished := s.finish
          { s.bus.modifyChannel key (EventBus.offer evt) with pc := EventBus.afterSend evt keys } }
  | stopping (at' : Option Nat) :
      BusStep s .stop { s with stopping := true, acceptedAtStop := at' }
  | exited : BusStep s .exit { s with stopped := true }

theorem take_cases {key : Nat} {received : Bool} (h : s.take key received = some s') :
    ∃ evt rest, s.channel key = evt :: rest ∧ s' = { s with
      bus := s.bus.modifyChannel key fun _ => rest
      detached := modifyIn s.detached key fun _ => rest
      taken := s.taken ++ [⟨key, evt, received⟩] } := by
  unfold take at h
  split at h
  · simp at h
  · next evt rest hchannel => exact ⟨evt, rest, hchannel, (Option.some.inj h).symm⟩

theorem step_cases {l : BusLabel} (h : step s l = some s') : BusStep s l s' := by
  cases l with
  | publish evt now =>
      obtain rfl := Option.some.inj h
      rcases publish_cases s.bus evt now with hb | ⟨e, hb⟩
      · have hsame := BusStep.published (s := s) evt now []
        rw [List.append_nil, List.append_nil] at hsame
        rw [hb, List.drop_length, List.append_nil]
        exact hsame
      · rw [hb]
        dsimp only
        rw [List.drop_left' rfl]
        exact .published evt now [e]
  | subscribe name =>
      obtain rfl := Option.some.inj h
      exact .subscribed name
  | cancel key =>
      obtain rfl := Option.some.inj h
      exact .cancelled key _
  | drain key =>
      simp only [step] at h
      split_ifs at h with hany
      obtain ⟨sub, hsub, hkey⟩ := List.any_eq_true.mp hany
      obtain ⟨evt, rest, hchannel, rfl⟩ := take_cases h
      refine .took _ key false evt rest (.inr ⟨rfl, List.mem_map.mpr ⟨sub, hsub, ?_⟩⟩) hchannel
      simpa using hkey
  | recv key =>
      obtain ⟨evt, rest, hchannel, rfl⟩ := take_cases h
      exact .took _ key true evt rest (.inl rfl) hchannel
  | process persisted now =>
      obtain ⟨evt, rest, e, store, -, hpc, -, -, -, rfl⟩ := process_step h
      exact .stored persisted now rest e store hpc
  | snapshot order =>
      obtain ⟨b, hb, rfl⟩ := Option.map_eq_some_iff.mp h
      unfold EventBus.snapshot at hb
      split at hb
      · next evt hpc =>
          split_ifs at hb
          obtain rfl := Option.some.inj hb
          exact .listed order evt hpc
      · simp at hb
  | send =>
      simp only [step] at h
      split at h
      · next evt key keys hpc =>
          rw [EventBus.send, hpc, Option.map_some] at h
          obtain rfl := Option.some.inj h
          exact .sent evt key keys hpc
      · simp at h
  | stop =>
      obtain rfl := Option.some.inj h
      exact .stopping _
  | exit =>
      simp only [step] at h
      split_ifs at h
      obtain rfl := Option.some.inj h
      exact .exited

/-- Only `process` adds to the processed events and to the store. -/
theorem step_processed {l : BusLabel} (hl : ∀ persisted now, l ≠ .process persisted now)
    (h : step s l = some s') : s'.processed = s.processed ∧ s'.store = s.store := by
  cases step_cases h with
  | stored persisted now => exact absurd rfl (hl persisted now)
  | published | subscribed | cancelled | took | listed | sent | stopping | exited => exact ⟨rfl, rfl⟩

theorem inv_step (s : BusSys) (l : BusLabel) (s' : BusSys) (hs : Inv s) (hguard : Unwrapped s l)
    (h : step s l = some s') : Inv s' := by
  by_cases hl : ∃ persisted now, l = .process persisted now
  · obtain ⟨persisted, now, rfl⟩ := hl
    exact inv_process hs hguard h
  · obtain ⟨hprocessed, hstore⟩ :=
      step_processed (fun persisted now heq => hl ⟨persisted, now, heq⟩) h
    refine { toFlow := flow_step hs.toFlow h, numbered := ?_, stored := ?_ }
    · rw [hprocessed]
      exact hs.numbered
    · rw [hprocessed, hstore]
      exact hs.stored

/-- **The bus is faithful** in every run in which the sequence counter does not wrap. -/
theorem bus_faithful (store : EventStore) (ls : List BusLabel) (s : BusSys)
    (hguard : Run.Guarded step Unwrapped (init store) ls)
    (h : Run.exec step (init store) ls = some s) : Faithful s :=
  (Run.exec_invariant Inv inv_step ls (init store) s (inv_init store) hguard h).faithful

/-- An event that somebody receives before the bus stops. -/
def deliveredRun : List BusLabel :=
  [.subscribe "ui", .publish { type := "vm.started" } 5, .process true 6, .snapshot [1], .send,
    .recv 1, .stop, .exit]

theorem bus_faithful_delivered : ∃ s, Run.exec step (init ⟨0, Bucket.empty⟩) deliveredRun = some s ∧
    s.stopped = true ∧ s.received 1 = s.processed.map Prod.fst ∧ Faithful s :=
  ⟨_, rfl, rfl, rfl, bus_faithful ⟨0, Bucket.empty⟩ deliveredRun _ (by decide) rfl⟩

/-- Two events stored over the end of the counter. -/
def wrappingRun : List BusLabel :=
  [.publish { type := "vm.started" } 5, .process true 6, .snapshot [],
    .publish { type := "vm.stopped" } 7, .process true 8, .snapshot []]

/-- The counter starts again at zero, so the second event has the smaller number. -/
theorem bus_wraps : ∃ s, Run.exec step (init ⟨2 ^ 64 - 2, Bucket.empty⟩) wrappingRun = some s ∧
    s.processed.map Prod.snd = [some (2 ^ 64 - 1), some 0] ∧ ¬ Faithful s :=
  ⟨_, rfl, by decide, fun hs => absurd hs.numbered (by decide)⟩

end BusSys

end VMSmith
