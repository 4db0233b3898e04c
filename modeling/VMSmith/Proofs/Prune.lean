/-
Pruning takes the oldest events away.

Both phases delete keys from the front of the numbered events, at most 5000 at once, and how
many are left to delete goes down by as many as were deleted.  So repeating a phase comes to an
end, and what is left is what a phase without the limit would have left: everything but the
excess for the record limit, everything from the first event on that is newer than the cutoff
for the age.  The age phase never looks behind that event.
-/
import VMSmith.Events.Retention
import VMSmith.Lib.Scan
import VMSmith.Proofs.EventList
import Mathlib.Logic.Function.Iterate

namespace VMSmith

open Go StoredEvents

namespace StoredEvents

variable {s : StoredEvents}

/-! ### Deleting keys -/

theorem deleteKeys_entries (s : StoredEvents) (keys : List Bytes) :
    (s.deleteKeys keys).bucket.entries = s.bucket.entries.filter fun p => p.1 ∉ keys := by
  induction keys generalizing s with
  | nil => simp [deleteKeys]
  | cons key keys ih =>
      unfold deleteKeys
      rw [ih]
      dsimp only [Bucket.erase]
      rw [List.filter_filter]
      refine List.filter_congr fun p _ => ?_
      rw [Bool.and_comm]
      simp [not_or]

@[simp] theorem deleteKeys_sequence (s : StoredEvents) (keys : List Bytes) :
    (s.deleteKeys keys).sequence = s.sequence := by
  induction keys generalizing s with
  | nil => rfl
  | cons key keys ih =>
      unfold deleteKeys
      rw [ih]

theorem deleteKeys_get? {keys : List Bytes} {key : Bytes} {value : Option Event} :
    (s.deleteKeys keys).bucket.get? key = some value ↔
      key ∉ keys ∧ s.bucket.get? key = some value := by
  rw [← Bucket.mem_entries, deleteKeys_entries, List.mem_filter, ← Bucket.mem_entries,
    decide_eq_true_eq, and_comm]

/-- The keys of the numbered events, in order. -/
theorem seqKeys_eq (s : StoredEvents) : s.seqKeys = s.numbered.map fun p => encodeSeqKey p.1 := by
  unfold seqKeys numbered
  rw [List.map_filterMap, List.filter_map, ← List.filterMap_eq_map, List.filterMap_filter]
  refine List.filterMap_congr fun entry hentry => ?_
  obtain ⟨key, value⟩ := entry
  by_cases hlen : key.length = 8
  · obtain ⟨evt, rfl, -⟩ := s.written key value (Bucket.mem_entries.mp hentry) hlen
    simp [numberedEntry, hlen, encode_decodeSeqKey hlen]
  · simp [numberedEntry, hlen]

/-- The keys of the first `count` numbered events. -/
def oldestKeys (s : StoredEvents) (count : Nat) : List Bytes :=
  (s.numbered.take count).map fun p => encodeSeqKey p.1

/-- Without the keys of the first events the others are left. -/
theorem numbered_deleteOldest (s : StoredEvents) (count : Nat) :
    (s.deleteKeys (s.oldestKeys count)).numbered = s.numbered.drop count := by
  have hkept : (s.deleteKeys (s.oldestKeys count)).numbered =
      s.numbered.filter fun p => encodeSeqKey p.1 ∉ s.oldestKeys count := by
    unfold numbered
    rw [deleteKeys_entries, List.filterMap_filter, List.filter_filterMap]
    refine List.filterMap_congr fun entry _ => ?_
    cases hentry : numberedEntry entry with
    | none => simp
    | some p =>
        obtain ⟨n, evt⟩ := p
        obtain ⟨-, rfl⟩ := numberedEntry_eq_some.mp hentry
        simp only [Option.filter]
  have hnodup : (s.numbered.map fun p => encodeSeqKey p.1).Nodup := by
    rw [← seqKeys_eq]
    unfold seqKeys
    refine List.Pairwise.filter _ ?_
    rw [List.pairwise_map]
    exact s.bucket.sorted.imp ne_of_lt
  rw [hkept]
  exact Bucket.filter_notMem_take hnodup fun p => decide_eq_true_iff

/-- Keys that are no numbers are not among those of events. -/
theorem get?_deleteOldest (s : StoredEvents) (count : Nat) {key : Bytes} (hlen : key.length ≠ 8) :
    (s.deleteKeys (s.oldestKeys count)).bucket.get? key = s.bucket.get? key := by
  have hnot : key ∉ s.oldestKeys count := by
    intro hmem
    obtain ⟨p, -, rfl⟩ := List.mem_map.mp hmem
    exact hlen (length_encodeSeqKey p.1)
  ext value
  rw [deleteKeys_get?]
  exact and_iff_right hnot

end StoredEvents

/-! ### Repeating a phase -/

/-- Repeating the phase leads to a store from which it removes nothing. -/
def PrunesTo (prune : StoredEvents → Nat × StoredEvents) (s t : StoredEvents) : Prop :=
  ∃ n, (fun s => (prune s).2)^[n] s = t ∧ (prune t).1 = 0

/-- A phase deletes the first events, `excess` of them or as many as go at once. -/
structure DropsOldest (prune : StoredEvents → Nat × StoredEvents)
    (excess : List (Nat × Event) → Nat) : Prop where
  prune_eq : ∀ s, prune s = (min maxPerSweep (excess s.numbered),
    s.deleteKeys (s.oldestKeys (min maxPerSweep (excess s.numbered))))
  excess_drop : ∀ all count, count ≤ excess all → excess (all.drop count) = excess all - count

namespace DropsOldest

variable {prune : StoredEvents → Nat × StoredEvents} {excess : List (Nat × Event) → Nat}

theorem stays (h : DropsOldest prune excess) {s : StoredEvents} (hzero : (prune s).1 = 0) :
    (prune s).2 = s := by
  rw [h.prune_eq] at hzero ⊢
  dsimp only at hzero ⊢
  rw [hzero]
  rfl

/-- The phase has one end. -/
theorem prunesTo_unique (h : DropsOldest prune excess) {s t t' : StoredEvents}
    (ht : PrunesTo prune s t) (ht' : PrunesTo prune s t') : t' = t := by
  have hfix : ∀ (u : StoredEvents), (prune u).1 = 0 → ∀ m, (fun s => (prune s).2)^[m] u = u :=
    fun u hu m => Function.iterate_fixed (h.stays hu) m
  obtain ⟨n, rfl, hn⟩ := ht
  obtain ⟨n', rfl, hn'⟩ := ht'
  rcases Nat.le_total n n' with hle | hle
  · obtain ⟨m, rfl⟩ := Nat.exists_eq_add_of_le' hle
    rw [Function.iterate_add_apply, hfix _ hn]
  · obtain ⟨m, rfl⟩ := Nat.exists_eq_add_of_le' hle
    rw [Function.iterate_add_apply, hfix _ hn']

/-- Repeating the phase leaves all events but the excess, and every other key. -/
theorem prunesTo (h : DropsOldest prune excess) (s : StoredEvents) :
    ∃ t, (∀ t', PrunesTo prune s t' ↔ t' = t) ∧
      t.numbered = s.numbered.drop (excess s.numbered) ∧
      ∀ key, key.length ≠ 8 → t.bucket.get? key = s.bucket.get? key := by
  suffices hend : ∃ t, PrunesTo prune s t ∧ t.numbered = s.numbered.drop (excess s.numbered) ∧
      ∀ key, key.length ≠ 8 → t.bucket.get? key = s.bucket.get? key by
    obtain ⟨t, ht, hleft, hothers⟩ := hend
    exact ⟨t, fun t' => ⟨h.prunesTo_unique ht, fun heq => heq ▸ ht⟩, hleft, hothers⟩
  -- every round that removes something leaves less to remove
  induction hmeasure : excess s.numbered using Nat.strong_induction_on generalizing s with
  | _ count ih =>
      subst hmeasure
      have hstep := h.prune_eq s
      by_cases hzero : excess s.numbered = 0
      · refine ⟨s, ⟨0, rfl, ?_⟩, by rw [hzero]; rfl, fun _ _ => rfl⟩
        rw [hstep, hzero]
        rfl
      · have hpos : 0 < maxPerSweep := by decide
        have hnumbered : (prune s).2.numbered =
            s.numbered.drop (min maxPerSweep (excess s.numbered)) := by
          rw [hstep]
          exact s.numbered_deleteOldest _
        have hexcess : excess (prune s).2.numbered =
            excess s.numbered - min maxPerSweep (excess s.numbered) := by
          rw [hnumbered]
          exact h.excess_drop _ _ (Nat.min_le_right _ _)
        obtain ⟨t, ⟨n, hn, hend⟩, hleft, hothers⟩ := ih _ (by omega) (prune s).2 rfl
        refine ⟨t, ⟨n + 1, hn, hend⟩, ?_, fun key hlen => ?_⟩
        · rw [hleft, hexcess, hnumbered, List.drop_drop]
          congr 1
          omega
        · rw [hothers key hlen, hstep]
          exact s.get?_deleteOldest _ hlen

end DropsOldest

/-! ### The two phases -/

/-- How many events there are above the limit. -/
def overLimit (maxRecords : Int) (all : List (Nat × Event)) : Nat := all.length - maxRecords.toNat

theorem pruneEvents_dropsOldest {maxRecords : Int} (h : 0 < maxRecords) :
    DropsOldest (fun s => s.pruneEvents maxRecords) (overLimit maxRecords) := by
  constructor
  · intro s
    have hlen : s.seqKeys.length = s.numbered.length := by
      rw [s.seqKeys_eq, List.length_map]
    have hoff : ((s.numbered.length : Int) - maxRecords).toNat =
        overLimit maxRecords s.numbered := by
      unfold overLimit
      omega
    unfold StoredEvents.pruneEvents
    dsimp only
    rw [hlen]
    by_cases hnone : (s.numbered.length : Int) - maxRecords ≤ 0
    · have hzero : overLimit maxRecords s.numbered = 0 := by omega
      rw [if_pos hnone, hzero]
      rfl
    · have hcount : (if (maxPerSweep : Int) < s.numbered.length - maxRecords then (maxPerSweep : Int)
          else s.numbered.length - maxRecords).toNat =
          min maxPerSweep (overLimit maxRecords s.numbered) := by
        split_ifs <;> omega
      rw [if_neg hnone, hcount, s.seqKeys_eq]
      have hle : overLimit maxRecords s.numbered ≤ s.numbered.length := Nat.sub_le _ _
      refine Prod.ext ?_ ?_
      · dsimp only
        rw [List.length_take, List.length_map]
        omega
      · dsimp only
        rw [← List.map_take]
        rfl
  · intro all count hcount
    unfold overLimit at hcount ⊢
    rw [List.length_drop]
    omega

/-- The age phase deletes the event when it meets it. -/
def Stale (cutoff : Int) (evt : Event) : Prop := evt.occurredAt ≠ 0 ∧ evt.occurredAt ≤ cutoff

instance (cutoff : Int) (evt : Event) : Decidable (Stale cutoff evt) :=
  inferInstanceAs (Decidable (_ ∧ _))

/-- The walk goes through the leading stale events. -/
theorem staleLoop_eq (cutoff : Int) {staleKeys : List Bytes} (h : staleKeys.length < maxPerSweep)
    (entries : List (Bytes × Option Event)) :
    staleLoop cutoff staleKeys entries = staleKeys ++
      (((entries.filterMap numberedEntry).takeWhile fun p => Stale cutoff p.2).take
        (maxPerSweep - staleKeys.length)).map fun p => encodeSeqKey p.1 := by
  induction entries generalizing staleKeys with
  | nil => simp [staleLoop]
  | cons entry later ih =>
      obtain ⟨key, value⟩ := entry
      unfold staleLoop
      by_cases hlen : key.length = 8
      · rw [if_neg (not_not.mpr hlen)]
        cases value with
        | none =>
            have hnone : numberedEntry (key, none) = none := by simp [numberedEntry]
            rw [List.filterMap_cons_none hnone]
            exact ih h
        | some evt =>
            have hsome : numberedEntry (key, some evt) = some (decodeSeqKey key, evt) := by
              simp [numberedEntry, hlen]
            rw [List.filterMap_cons_some hsome]
            dsimp only
            by_cases hstale : Stale cutoff evt
            · have hgo : ¬ (evt.occurredAt = 0 ∨ cutoff < evt.occurredAt) := by
                rw [not_or, not_lt]
                exact hstale
              obtain ⟨room, hroom⟩ : ∃ room, maxPerSweep - staleKeys.length = room + 1 :=
                ⟨maxPerSweep - staleKeys.length - 1, by omega⟩
              have hmore : (staleKeys ++ [key]).length = staleKeys.length + 1 := by simp
              rw [if_neg hgo, List.takeWhile_cons_of_pos (by simpa using hstale), hroom,
                List.take_succ_cons, List.map_cons, encode_decodeSeqKey hlen]
              by_cases hfull : maxPerSweep ≤ (staleKeys ++ [key]).length
              · have hzero : room = 0 := by omega
                rw [if_pos hfull, hzero]
                rfl
              · rw [if_neg hfull, ih (by omega), hmore,
                  show maxPerSweep - (staleKeys.length + 1) = room by omega, List.append_assoc]
                rfl
            · have hstop : evt.occurredAt = 0 ∨ cutoff < evt.occurredAt := by
                by_contra hgo
                rw [not_or, not_lt] at hgo
                exact hstale hgo
              rw [if_pos hstop, List.takeWhile_cons_of_neg (by simpa using hstale)]
              simp
      · have hnone : numberedEntry (key, value) = none := if_neg hlen
        rw [if_pos hlen, List.filterMap_cons_none hnone]
        exact ih h

/-- How many stale events stand in front. -/
def leadingStale (cutoff : Int) (all : List (Nat × Event)) : Nat :=
  (all.takeWhile fun p => Stale cutoff p.2).length

theorem leadingStale_drop {cutoff : Int} {all : List (Nat × Event)} {count : Nat}
    (h : count ≤ leadingStale cutoff all) :
    leadingStale cutoff (all.drop count) = leadingStale cutoff all - count := by
  induction all generalizing count with
  | nil => simp [leadingStale]
  | cons p rest ih =>
      cases count with
      | zero => rfl
      | succ count =>
          unfold leadingStale at h ih ⊢
          by_cases hstale : Stale cutoff p.2
          · rw [List.takeWhile_cons_of_pos (by simpa using hstale), List.length_cons] at h ⊢
            rw [List.drop_succ_cons, ih (by omega)]
            omega
          · rw [List.takeWhile_cons_of_neg (by simpa using hstale)] at h
            exact absurd h (by simp)

theorem drop_leadingStale (cutoff : Int) (all : List (Nat × Event)) :
    all.drop (leadingStale cutoff all) = all.dropWhile fun p => Stale cutoff p.2 := by
  unfold leadingStale
  calc all.drop (all.takeWhile fun p => Stale cutoff p.2).length
      = ((all.takeWhile fun p => Stale cutoff p.2) ++ all.dropWhile fun p => Stale cutoff p.2).drop
          (all.takeWhile fun p => Stale cutoff p.2).length := by rw [List.takeWhile_append_dropWhile]
    _ = all.dropWhile fun p => Stale cutoff p.2 := List.drop_left

theorem pruneEventsByAge_dropsOldest {maxAge : Int} (h : 0 < maxAge) (now : Nat) :
    DropsOldest (fun s => s.pruneEventsByAge maxAge now) (leadingStale (now - maxAge)) := by
  constructor
  · intro s
    have hnone : ([] : List Bytes).length < maxPerSweep := by decide
    have hwalk := staleLoop_eq (now - maxAge) hnone s.bucket.entries
    rw [List.nil_append, List.length_nil, Nat.sub_zero] at hwalk
    have htake : ((s.numbered.takeWhile fun p => Stale (now - maxAge) p.2).take maxPerSweep) =
        s.numbered.take (min maxPerSweep (leadingStale (now - maxAge) s.numbered)) := by
      have hfront := List.prefix_iff_eq_take.mp
        (List.takeWhile_prefix (l := s.numbered) fun p => Stale (now - maxAge) p.2)
      rw [hfront, List.take_take]
      rfl
    have hle : leadingStale (now - maxAge) s.numbered ≤ s.numbered.length :=
      (List.takeWhile_sublist _).length_le
    have hkeys : staleLoop (now - maxAge) [] s.bucket.entries =
        s.oldestKeys (min maxPerSweep (leadingStale (now - maxAge) s.numbered)) := by
      rw [hwalk]
      unfold StoredEvents.oldestKeys
      rw [← htake]
      rfl
    unfold StoredEvents.pruneEventsByAge
    rw [if_neg (by omega)]
    dsimp only
    rw [hkeys]
    refine Prod.ext ?_ rfl
    unfold StoredEvents.oldestKeys
    dsimp only
    rw [List.length_map, List.length_take]
    omega
  · exact fun all count hcount => leadingStale_drop hcount

/-! ### What is left -/

/-- Every event has its time, and the times are in the order of the numbers. -/
structure InTimeOrder (all : List (Nat × Event)) : Prop where
  stamped : ∀ p ∈ all, p.2.occurredAt ≠ 0
  ordered : all.Pairwise fun p q => p.2.occurredAt ≤ q.2.occurredAt

/-- In time order the stale events are the leading ones. -/
theorem dropWhile_stale {cutoff : Int} {all : List (Nat × Event)} (h : InTimeOrder all) :
    (all.dropWhile fun p => Stale cutoff p.2) =
      all.filter fun p => cutoff < p.2.occurredAt := by
  induction all with
  | nil => rfl
  | cons p rest ih =>
      obtain ⟨hp, hrest⟩ := List.pairwise_cons.mp h.ordered
      have hstamped : p.2.occurredAt ≠ 0 := h.stamped p List.mem_cons_self
      by_cases hstale : Stale cutoff p.2
      · rw [List.dropWhile_cons_of_pos (by simpa using hstale), List.filter_cons_of_neg,
          ih ⟨fun q hq => h.stamped q (List.mem_cons_of_mem _ hq), hrest⟩]
        simpa using hstale.2
      · have hnew : cutoff < p.2.occurredAt := by
          by_contra hold
          exact hstale ⟨hstamped, not_lt.mp hold⟩
        rw [List.dropWhile_cons_of_neg (by simpa using hstale), List.filter_eq_self.mpr]
        intro q hq
        rcases List.mem_cons.mp hq with rfl | hq
        · simpa using hnew
        · have hle := hp q hq
          rw [decide_eq_true_eq]
          omega

/--
Repeating either phase comes to one end, and every key that is no number is still there.  The
record phase leaves the newest `maxRecords` events.  The age phase leaves the events from the
first one on that has no time or one after the cutoff, which are the events after the cutoff
where the times are in the order of the numbers.
-/
theorem prune_leaves (s : StoredEvents) {maxRecords maxAge : Int} (now : Nat)
    (hrecords : 0 < maxRecords) (hage : 0 < maxAge) :
    (∃ t, (∀ t', PrunesTo (fun s => s.pruneEvents maxRecords) s t' ↔ t' = t) ∧
        t.numbered = s.numbered.drop (s.numbered.length - maxRecords.toNat) ∧
        ∀ key, key.length ≠ 8 → t.bucket.get? key = s.bucket.get? key) ∧
      ∃ t, (∀ t', PrunesTo (fun s => s.pruneEventsByAge maxAge now) s t' ↔ t' = t) ∧
        t.numbered = (s.numbered.dropWhile fun p => Stale (now - maxAge) p.2) ∧
        (InTimeOrder s.numbered →
          t.numbered = s.numbered.filter fun p => now - maxAge < p.2.occurredAt) ∧
        ∀ key, key.length ≠ 8 → t.bucket.get? key = s.bucket.get? key := by
  constructor
  · exact (pruneEvents_dropsOldest hrecords).prunesTo s
  · obtain ⟨t, hends, hleft, hothers⟩ := (pruneEventsByAge_dropsOldest hage now).prunesTo s
    rw [drop_leadingStale] at hleft
    exact ⟨t, hends, hleft, fun horder => hleft.trans (dropWhile_stale horder), hothers⟩

/-- What both phases would leave if the events came in the order of their times and nothing
were at the cutoff. -/
def PrunesExactly (s : StoredEvents) (maxRecords maxAge : Int) (now : Nat) : Prop :=
  (∃ t, PrunesTo (fun s => s.pruneEvents maxRecords) s t ∧
      t.numbered = s.numbered.drop (s.numbered.length - maxRecords.toNat)) ∧
    ∃ t, PrunesTo (fun s => s.pruneEventsByAge maxAge now) s t ∧
      t.numbered = s.numbered.filter fun p => now - maxAge ≤ p.2.occurredAt

/-- Behind an event of the last minute there is one that was reported late. -/
def lateReport : StoredEvents :=
  let empty := StoredEvents.legacy Bucket.empty StoredEvents.legacy_empty
  ((empty.appendEvent { type := "vm.started", occurredAt := 90 }).2.appendEvent
    { type := "vm.stopped", occurredAt := 20 }).2

/-- Both phases on the two events. -/
theorem prune_leaves_lateReport :
    (∃ t, (∀ t', PrunesTo (fun s => s.pruneEvents 1) lateReport t' ↔ t' = t) ∧
        t.numbered = lateReport.numbered.drop (lateReport.numbered.length - (1 : Int).toNat) ∧
        ∀ key, key.length ≠ 8 → t.bucket.get? key = lateReport.bucket.get? key) ∧
      ∃ t, (∀ t', PrunesTo (fun s => s.pruneEventsByAge 60 100) lateReport t' ↔ t' = t) ∧
        t.numbered = (lateReport.numbered.dropWhile fun p => Stale ((100 : Nat) - 60) p.2) ∧
        (InTimeOrder lateReport.numbered →
          t.numbered = lateReport.numbered.filter fun p => ((100 : Nat) : Int) - 60 < p.2.occurredAt) ∧
        ∀ key, key.length ≠ 8 → t.bucket.get? key = lateReport.bucket.get? key :=
  prune_leaves lateReport 100 (by decide) (by decide)

/-- The event that was reported late stays, although it is older than the cutoff. -/
theorem prune_misses_late :
    ¬ ∀ (s : StoredEvents) (maxRecords maxAge : Int) (now : Nat), 0 < maxRecords → 0 < maxAge →
      PrunesExactly s maxRecords maxAge now := by
  intro h
  obtain ⟨-, t, ht, hleft⟩ := h lateReport 1 60 100 (by decide) (by decide)
  obtain ⟨t', hends, hkept, -⟩ :=
    (pruneEventsByAge_dropsOldest (by decide : (0 : Int) < 60) 100).prunesTo lateReport
  rw [(hends t).mp ht, hkept] at hleft
  have hnumbers := congrArg (List.map Prod.fst) hleft
  exact absurd hnumbers (by decide +kernel)

end VMSmith
