/-
Sweeps that delete do not come to rest.

A sweep that deleted something publishes an event, and the bus stores it in the bucket that was
swept.  So a bucket above its limit is one event above it after every sweep, and the next sweep
deletes again, until the counter has run through all of its numbers.  With a maximum age every
event grows old, the sweeps' own events as well: only a bucket without events stays as it is.
-/
import VMSmith.Proofs.Prune

namespace VMSmith

open Go StoredEvents

/-- The times of the sweeps: no clock shows the zero time, and time passes. -/
structure SweepTimes where
  time : Nat → Nat
  pos : ∀ n, 0 < time n
  passes : ∀ t n, ∃ m, n ≤ m ∧ t ≤ time m

/-- The store after so many sweeps, each with the bus storing what it published. -/
def Retention.rounds (r : Retention) (times : SweepTimes) (s : StoredEvents) : Nat → StoredEvents
  | 0 => s
  | n + 1 => r.round (r.rounds times s n) (times.time n)

/-- The sweep deletes nothing and publishes nothing, and the limit is kept. -/
structure Retention.Quiet (r : Retention) (s : StoredEvents) (now : Nat) : Prop where
  deletes : (r.sweep s now).1 = s
  publishes : (r.sweep s now).2 = none
  kept : s.countEvents ≤ r.maxRecords

/-- After so many sweeps, and before the counter has run through its numbers, every further
sweep is quiet. -/
def Retention.Settles (r : Retention) (times : SweepTimes) (s : StoredEvents) : Prop :=
  ∃ n, s.sequence + n < 2 ^ 64 ∧ ∀ m, n ≤ m → r.Quiet (r.rounds times s m) (times.time m)

/-- What the bus leaves in a bucket: no number above the counter, and no event without its
time. -/
structure StoredEvents.Published (s : StoredEvents) : Prop where
  below : ∀ n evt, s.Holds n evt → n ≤ s.sequence
  stamped : ∀ n evt, s.Holds n evt → evt.occurredAt ≠ 0

/-! ### A sweep -/

section

variable {r : Retention} {s : StoredEvents} {now : Nat}

theorem countEvents_eq (s : StoredEvents) : s.countEvents = s.numbered.length := by
  unfold countEvents
  rw [s.seqKeys_eq, List.length_map]

/-- How many events the record phase deletes. -/
def Retention.overdue (r : Retention) (s : StoredEvents) : Nat :=
  min maxPerSweep (overLimit r.maxRecords s.numbered)

/-- How many events the age phase deletes behind the other. -/
def Retention.outdated (r : Retention) (s : StoredEvents) (now : Nat) : Nat :=
  if 0 < r.maxAge then
    min maxPerSweep (leadingStale (now - r.maxAge) (s.numbered.drop (r.overdue s)))
  else 0

/-- What a sweep does: the oldest events go, and if there are any, an event says so. -/
theorem sweep_eq (h : 0 < r.maxRecords) (s : StoredEvents) (now : Nat) :
    ∃ t : StoredEvents, t.sequence = s.sequence ∧
      t.numbered = s.numbered.drop (r.overdue s + r.outdated s now) ∧
      (r.overdue s + r.outdated s now = 0 → t = s) ∧
      r.sweep s now = (t, if r.overdue s + r.outdated s now = 0 then none
        else some (retentionPruned r (r.overdue s) (r.outdated s now) now)) := by
  have hrecords : s.pruneEvents r.maxRecords =
      (r.overdue s, s.deleteKeys (s.oldestKeys (r.overdue s))) :=
    (pruneEvents_dropsOldest h).prune_eq s
  have hmiddle := s.numbered_deleteOldest (r.overdue s)
  by_cases hage : 0 < r.maxAge
  · have hold := (pruneEventsByAge_dropsOldest hage now).prune_eq
      (s.deleteKeys (s.oldestKeys (r.overdue s)))
    rw [hmiddle] at hold
    have hout : r.outdated s now =
        min maxPerSweep (leadingStale (now - r.maxAge) (s.numbered.drop (r.overdue s))) := by
      unfold Retention.outdated
      rw [if_pos hage]
    rw [← hout] at hold
    refine ⟨(s.deleteKeys (s.oldestKeys (r.overdue s))).deleteKeys
      ((s.deleteKeys (s.oldestKeys (r.overdue s))).oldestKeys (r.outdated s now)), ?_, ?_, ?_, ?_⟩
    · rw [deleteKeys_sequence, deleteKeys_sequence]
    · rw [numbered_deleteOldest, hmiddle, List.drop_drop]
    · intro hzero
      rw [show r.overdue s = 0 by omega, show r.outdated s now = 0 by omega]
      rfl
    · unfold Retention.sweep
      rw [if_pos h, hrecords]
      dsimp only
      rw [if_pos hage, hold]
      dsimp only
      split_ifs <;> rfl
  · have hout : r.outdated s now = 0 := by
      unfold Retention.outdated
      rw [if_neg hage]
    refine ⟨s.deleteKeys (s.oldestKeys (r.overdue s)), deleteKeys_sequence _ _, ?_, ?_, ?_⟩
    · rw [hmiddle, hout]
      rfl
    · intro hzero
      rw [show r.overdue s = 0 by omega]
      rfl
    · unfold Retention.sweep
      rw [if_pos h, hrecords]
      dsimp only
      rw [if_neg hage, hout]
      dsimp only
      split_ifs <;> rfl

/-- A sweep is quiet exactly if it finds nothing to delete. -/
theorem quiet_iff (h : 0 < r.maxRecords) :
    r.Quiet s now ↔ r.overdue s + r.outdated s now = 0 := by
  obtain ⟨t, -, -, hsame, hsweep⟩ := sweep_eq h s now
  constructor
  · intro hquiet
    by_contra hzero
    have hpublishes := hquiet.publishes
    rw [hsweep, if_neg hzero] at hpublishes
    exact absurd hpublishes (by simp)
  · intro hzero
    refine ⟨?_, ?_, ?_⟩
    · rw [hsweep]
      exact hsame hzero
    · rw [hsweep, if_pos hzero]
    · have hover : r.overdue s = 0 := by omega
      unfold Retention.overdue overLimit at hover
      have hpos : 0 < maxPerSweep := by decide
      rw [countEvents_eq]
      omega

theorem round_quiet (h : r.Quiet s now) : r.round s now = s := by
  unfold Retention.round
  rw [show r.sweep s now = (s, none) from Prod.ext h.deletes h.publishes]

/-- A sweep that deletes something ends with an event in the store. -/
theorem round_loud (h : 0 < r.maxRecords) (hloud : ¬ r.Quiet s now) :
    ∃ t : StoredEvents, t.sequence = s.sequence ∧
      t.numbered = s.numbered.drop (r.overdue s + r.outdated s now) ∧
      r.round s now =
        (t.appendEvent (retentionPruned r (r.overdue s) (r.outdated s now) now)).2 := by
  obtain ⟨t, hseq, hleft, -, hsweep⟩ := sweep_eq h s now
  rw [quiet_iff h] at hloud
  refine ⟨t, hseq, hleft, ?_⟩
  unfold Retention.round
  rw [hsweep, if_neg hloud]

end

/-! ### An append -/

theorem appendEvent_holds {s : StoredEvents} {event evt : Event} {n : Nat} :
    (s.appendEvent event).2.Holds n evt ↔ n < 2 ^ 64 ∧
      if n = (s.sequence + 1) % 2 ^ 64 then
        evt = { event with id := toString ((s.sequence + 1) % 2 ^ 64) }
      else s.Holds n evt := by
  unfold Holds appendEvent
  dsimp only
  rw [Bucket.get?_put]
  have hlt : (s.sequence + 1) % 2 ^ 64 < 2 ^ 64 := Nat.mod_lt _ (by decide)
  by_cases hn : n < 2 ^ 64
  · have hkey : encodeSeqKey n = encodeSeqKey ((s.sequence + 1) % 2 ^ 64) ↔
        n = (s.sequence + 1) % 2 ^ 64 := by
      constructor
      · intro heq
        have hdecode := congrArg decodeSeqKey heq
        rwa [decode_encodeSeqKey hn, decode_encodeSeqKey hlt] at hdecode
      · rintro rfl
        rfl
    by_cases heq : n = (s.sequence + 1) % 2 ^ 64
    · rw [if_pos (hkey.mpr heq), if_pos heq]
      simp only [hn, true_and, Option.some.injEq]
      exact eq_comm
    · rw [if_neg (fun hk => heq (hkey.mp hk)), if_neg heq]
      exact ⟨fun h => ⟨hn, hn, h.2⟩, fun h => ⟨hn, h.2.2⟩⟩
  · exact ⟨fun h => absurd h.1 hn, fun h => absurd h.1 hn⟩

/-- An event with a new number comes behind the others. -/
theorem numbered_appendEvent {s : StoredEvents} (hbelow : ∀ n evt, s.Holds n evt → n ≤ s.sequence)
    (hlt : s.sequence + 1 < 2 ^ 64) (event : Event) :
    (s.appendEvent event).2.numbered =
      s.numbered ++ [(s.sequence + 1, { event with id := toString (s.sequence + 1) })] := by
  have hmod : (s.sequence + 1) % 2 ^ 64 = s.sequence + 1 := Nat.mod_eq_of_lt hlt
  refine eq_of_numbered (numbered_sorted _) ?_ fun ⟨n, evt⟩ => ?_
  · rw [List.pairwise_append]
    refine ⟨s.numbered_sorted, List.pairwise_singleton _ _, ?_⟩
    rintro ⟨n, evt⟩ hn p hp
    obtain rfl := List.mem_singleton.mp hp
    exact Nat.lt_succ_of_le (hbelow n evt (mem_numbered.mp hn))
  · rw [mem_numbered, appendEvent_holds, hmod, List.mem_append, List.mem_singleton, mem_numbered]
    by_cases heq : n = s.sequence + 1
    · have hnew : ¬ s.Holds n evt := fun hold => by
        have hle := hbelow n evt hold
        omega
      rw [if_pos heq]
      simp only [hnew, false_or, Prod.mk.injEq]
      exact ⟨fun h => ⟨heq, h.2⟩, fun h => ⟨by omega, h.2⟩⟩
    · rw [if_neg heq]
      simp only [Prod.mk.injEq, heq, false_and, or_false]
      exact ⟨And.right, fun hold => ⟨hold.1, hold⟩⟩

/-! ### Without a maximum age -/

section

variable {r : Retention} {times : SweepTimes} {s : StoredEvents}

/-- A bucket above its limit, whose counter has not run out. -/
structure Overfull (r : Retention) (s : StoredEvents) (rest : Nat) : Prop where
  below : ∀ n evt, s.Holds n evt → n ≤ s.sequence
  crowded : r.maxRecords < s.numbered.length
  room : s.sequence + rest < 2 ^ 64

theorem Overfull.loud {rest now : Nat} (h : Overfull r s rest) :
    ¬ r.Quiet s now := by
  intro hquiet
  have hkept := hquiet.kept
  rw [countEvents_eq] at hkept
  exact absurd h.crowded (not_lt.mpr hkept)

/-- After the sweep the bucket is above its limit again. -/
theorem Overfull.round {rest now : Nat} (h : Overfull r s (rest + 1)) (hr : 0 < r.maxRecords)
    (hage : ¬ 0 < r.maxAge) : Overfull r (r.round s now) rest := by
  obtain ⟨t, hseq, hleft, hround⟩ := round_loud hr h.loud
  have hout : r.outdated s now = 0 := if_neg hage
  rw [hout, Nat.add_zero] at hleft
  have hbelow : ∀ n evt, t.Holds n evt → n ≤ t.sequence := by
    intro n evt hold
    rw [hseq]
    rw [← mem_numbered, hleft] at hold
    exact h.below n evt (mem_numbered.mp (List.mem_of_mem_drop hold))
  have hroom := h.room
  have hlt : t.sequence + 1 < 2 ^ 64 := by omega
  have hmod : (t.sequence + 1) % 2 ^ 64 = t.sequence + 1 := Nat.mod_eq_of_lt hlt
  rw [hround]
  constructor
  · intro n evt hold
    have hnumbered := mem_numbered.mpr hold
    rw [numbered_appendEvent hbelow hlt, List.mem_append, List.mem_singleton] at hnumbered
    change n ≤ (t.sequence + 1) % 2 ^ 64
    rw [hmod]
    rcases hnumbered with hin | heq
    · exact (hbelow n evt (mem_numbered.mp hin)).trans (Nat.le_succ _)
    · injection heq with hn
      exact hn.le
  · have hover := h.crowded
    rw [numbered_appendEvent hbelow hlt, hleft, List.length_append, List.length_drop]
    unfold Retention.overdue overLimit
    simp only [List.length_singleton]
    omega
  · change (t.sequence + 1) % 2 ^ 64 + rest < 2 ^ 64
    rw [hmod]
    omega

/-- The bucket is above its limit for as long as the counter lasts. -/
theorem Overfull.rounds (hr : 0 < r.maxRecords) (hage : ¬ 0 < r.maxAge) (n rest : Nat)
    (h : Overfull r s (n + rest)) : Overfull r (r.rounds times s n) rest := by
  induction n generalizing rest with
  | zero => simpa [Retention.rounds] using h
  | succ n ih =>
      refine Overfull.round (ih (rest + 1) ?_) hr hage
      rwa [show n + (rest + 1) = n + 1 + rest by omega]

/-! ### With a maximum age -/

/-- There are events, and each has its time. -/
structure Ageing (s : StoredEvents) : Prop where
  some_event : s.numbered ≠ []
  stamped : ∀ p ∈ s.numbered, p.2.occurredAt ≠ 0

theorem Ageing.round (h : Ageing s) (hr : 0 < r.maxRecords) {now : Nat} (hnow : 0 < now) :
    Ageing (r.round s now) := by
  by_cases hquiet : r.Quiet s now
  · rwa [round_quiet hquiet]
  · obtain ⟨t, -, hleft, hround⟩ := round_loud hr hquiet
    rw [hround]
    generalize hevent : retentionPruned r (r.overdue s) (r.outdated s now) now = event
    have htime : event.occurredAt = now := by
      rw [← hevent]
      rfl
    constructor
    · have hnew : (t.appendEvent event).2.Holds ((t.sequence + 1) % 2 ^ 64)
          { event with id := toString ((t.sequence + 1) % 2 ^ 64) } :=
        appendEvent_holds.mpr ⟨Nat.mod_lt _ (by decide), by rw [if_pos rfl]⟩
      exact List.ne_nil_of_mem (mem_numbered.mpr hnew)
    · rintro ⟨n, evt⟩ hp
      obtain ⟨-, hold⟩ := appendEvent_holds.mp (mem_numbered.mp hp)
      by_cases heq : n = (t.sequence + 1) % 2 ^ 64
      · rw [if_pos heq] at hold
        rw [hold]
        dsimp only
        omega
      · rw [if_neg heq, ← mem_numbered, hleft] at hold
        exact h.stamped _ (List.mem_of_mem_drop hold)

theorem Ageing.rounds (h : Ageing s) (hr : 0 < r.maxRecords) (n : Nat) :
    Ageing (r.rounds times s n) := by
  induction n with
  | zero => exact h
  | succ n ih => exact ih.round hr (times.pos n)

/-- When its first event has grown old, the sweep deletes it. -/
theorem Ageing.loud (h : Ageing s) (hr : 0 < r.maxRecords) (hage : 0 < r.maxAge) :
    ∃ t, ∀ now, t ≤ now → ¬ r.Quiet s now := by
  obtain ⟨first, rest, hnumbered⟩ := List.exists_cons_of_ne_nil h.some_event
  have hstamped := h.stamped first (hnumbered ▸ List.mem_cons_self)
  refine ⟨first.2.occurredAt + r.maxAge.toNat, fun now hnow => ?_⟩
  rw [quiet_iff hr]
  intro hzero
  have hover : r.overdue s = 0 := by omega
  have hout : r.outdated s now = 0 := by omega
  have hstale : Stale (now - r.maxAge) first.2 := ⟨hstamped, by omega⟩
  unfold Retention.outdated at hout
  rw [if_pos hage, hover, List.drop_zero, hnumbered, leadingStale,
    List.takeWhile_cons_of_pos (by simpa using hstale), List.length_cons] at hout
  have hpos : 0 < maxPerSweep := by decide
  omega

end

/-! ### Coming to rest -/

/-- Rounds that are quiet change nothing. -/
theorem rounds_quiet {r : Retention} {times : SweepTimes} {s : StoredEvents} {n : Nat}
    (h : ∀ m, n ≤ m → r.Quiet (r.rounds times s m) (times.time m)) (m : Nat) :
    r.rounds times s (n + m) = r.rounds times s n := by
  induction m with
  | zero => rfl
  | succ m ih => exact (round_quiet (h (n + m) (Nat.le_add_right n m))).trans ih

/-- The first event grows old while the sweeps are quiet. -/
theorem Ageing.restless {r : Retention} {times : SweepTimes} {s : StoredEvents} (h : Ageing s)
    (hr : 0 < r.maxRecords) (hage : 0 < r.maxAge) (n : Nat) :
    ¬ ∀ m, n ≤ m → r.Quiet (r.rounds times s m) (times.time m) := by
  intro hquiet
  have hageing : Ageing (r.rounds times s n) := h.rounds hr n
  obtain ⟨t, hloud⟩ := hageing.loud hr hage
  obtain ⟨m, hm, ht⟩ := times.passes t n
  obtain ⟨k, rfl⟩ := Nat.exists_eq_add_of_le hm
  have hlate := hquiet (n + k) hm
  rw [rounds_quiet hquiet k] at hlate
  exact hloud _ ht hlate

/-- The bucket is within its limit, and with a maximum age there are no events in it. -/
def Retention.AtRest (r : Retention) (s : StoredEvents) : Prop :=
  s.countEvents ≤ r.maxRecords ∧ (0 < r.maxAge → s.countEvents = 0)

theorem quiet_of_atRest {r : Retention} {s : StoredEvents} (hr : 0 < r.maxRecords)
    (h : r.AtRest s) (now : Nat) : r.Quiet s now := by
  obtain ⟨hkept, hempty⟩ := h
  rw [countEvents_eq] at hkept hempty
  have hover : r.overdue s = 0 := by
    unfold Retention.overdue overLimit
    omega
  rw [quiet_iff hr, hover, Nat.zero_add]
  by_cases hage : 0 < r.maxAge
  · unfold Retention.outdated
    rw [if_pos hage, List.eq_nil_of_length_eq_zero (hempty hage)]
    simp [leadingStale]
  · exact if_neg hage

/--
A bucket that is within its limit, and empty of events where there is a maximum age, is at rest
from the first sweep on.  Of the buckets the bus fills, no other comes to rest before the
counter of the bucket has run through its numbers.
-/
theorem sweeps_settle (r : Retention) (times : SweepTimes) (hr : 0 < r.maxRecords)
    (s : StoredEvents) (hlast : s.sequence < 2 ^ 64) :
    (r.AtRest s → r.Settles times s) ∧ (s.Published → (r.Settles times s ↔ r.AtRest s)) := by
  have hrest : r.AtRest s → r.Settles times s := by
    intro h
    have hsame : ∀ m, r.rounds times s m = s := by
      intro m
      induction m with
      | zero => rfl
      | succ m ih =>
          unfold Retention.rounds
          rw [ih, round_quiet (quiet_of_atRest hr h _)]
    refine ⟨0, hlast, fun m _ => ?_⟩
    rw [hsame m]
    exact quiet_of_atRest hr h _
  refine ⟨hrest, fun hs => ⟨?_, hrest⟩⟩
  rintro ⟨n, hn, hquiet⟩
  by_cases hage : 0 < r.maxAge
  · have hempty : s.numbered = [] := by
      by_contra hne
      have hageing : Ageing s := ⟨hne, fun p hp => hs.stamped p.1 p.2 (mem_numbered.mp hp)⟩
      exact hageing.restless hr hage n hquiet
    have hzero : s.countEvents = 0 := by rw [countEvents_eq, hempty]; rfl
    exact ⟨by omega, fun _ => hzero⟩
  · refine ⟨?_, fun h => absurd h hage⟩
    by_contra hover
    rw [countEvents_eq] at hover
    have hfull : Overfull r s (n + 0) := ⟨hs.below, by omega, hn⟩
    have hleft : Overfull r (r.rounds times s n) 0 := hfull.rounds hr hage n 0
    exact hleft.loud (hquiet n le_rfl)

/-- The times of a sweep every second. -/
def everySecond : SweepTimes where
  time := fun n => (n + 1) * 1000000000
  pos := fun n => by omega
  passes := fun t n => ⟨n + t, Nat.le_add_right n t, by omega⟩

/-- One event, a second old at the first sweep. -/
def oneEvent : StoredEvents :=
  ((StoredEvents.legacy Bucket.empty StoredEvents.legacy_empty).appendEvent
    { type := "vm.started", occurredAt := 1 }).2

theorem oneEvent_published : oneEvent.Published := by
  have honly : ∀ n evt, oneEvent.Holds n evt → n = 1 ∧ evt.occurredAt = 1 := by
    intro n evt hold
    have hnumbered : oneEvent.numbered =
        [(1, { type := "vm.started", occurredAt := 1, id := "1" })] := by decide +kernel
    have hmem := mem_numbered.mpr hold
    rw [hnumbered, List.mem_singleton] at hmem
    injection hmem with hn hevt
    rw [hn, hevt]
    exact ⟨rfl, rfl⟩
  exact ⟨fun n evt hold => (honly n evt hold).1.le,
    fun n evt hold => by rw [(honly n evt hold).2]; decide⟩

/-- Of at most ten records without a maximum age, one event is at rest. -/
theorem sweeps_settle_oneEvent : Retention.Settles ⟨10, 0⟩ everySecond oneEvent :=
  (sweeps_settle ⟨10, 0⟩ everySecond (by decide) oneEvent (by decide)).1 ⟨by decide, by decide⟩

/-- With the defaults, fifty thousand records and thirty days, one event is enough for the
sweeps never to come to rest. -/
theorem sweeps_restless :
    ¬ ∀ (r : Retention) (times : SweepTimes) (s : StoredEvents), 0 < r.maxRecords → s.Published →
      ∃ n, ∀ m, n ≤ m → r.Quiet (r.rounds times s m) (times.time m) := by
  intro h
  obtain ⟨n, hquiet⟩ := h ⟨50000, 30 * 24 * 60 * 60 * 1000000000⟩ everySecond oneEvent (by decide)
    oneEvent_published
  have hageing : Ageing oneEvent :=
    ⟨by decide +kernel, fun p hp => oneEvent_published.stamped p.1 p.2 (mem_numbered.mp hp)⟩
  exact hageing.restless (by decide) (by decide) n hquiet

end VMSmith
