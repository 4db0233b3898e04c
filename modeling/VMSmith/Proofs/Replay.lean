/-
The replay window.

A client that comes back asks for the events after the last one it has seen.  The cursor goes
to the key of the next number and collects until it has enough or meets a key that is no
number, so what it collects is the window as long as no such key stands among the events of
the window.  The number after the largest one is zero, and then the cursor goes to the start
of the bucket.
-/
import VMSmith.Proofs.EventList

namespace VMSmith

open Go

namespace StoredEvents

/-- The events after a number, oldest first. -/
def after (s : StoredEvents) (afterSeq : UInt64) : List (Nat × Event) :=
  s.numbered.filter fun p => afterSeq.toNat < p.1

theorem mem_after {s : StoredEvents} {afterSeq : UInt64} {n : Nat} {evt : Event} :
    (n, evt) ∈ s.after afterSeq ↔ s.Holds n evt ∧ afterSeq.toNat < n := by
  unfold after
  rw [List.mem_filter, mem_numbered, decide_eq_true_eq]

theorem after_sorted (s : StoredEvents) (afterSeq : UInt64) :
    (s.after afterSeq).Pairwise fun a b => a.1 < b.1 :=
  s.numbered_sorted.filter _

end StoredEvents

/-! ### The loop -/

/-- The entries up to the first key that is no number. -/
def numberKeyed (entries : List (Bytes × Option Event)) : List (Bytes × Option Event) :=
  entries.takeWhile fun entry => entry.1.length = 8

/-- The loop collects events until there are `limit` or a key is no number. -/
theorem replayLoop_eq {limit : Nat} {events : List Event} (hlt : events.length < limit)
    (entries : List (Bytes × Option Event)) :
    replayLoop limit events entries = events ++
      (((numberKeyed entries).filterMap numberedEntry).take (limit - events.length)).map Prod.snd := by
  induction entries generalizing events with
  | nil => simp [replayLoop, numberKeyed]
  | cons entry later ih =>
      obtain ⟨key, value⟩ := entry
      unfold replayLoop
      by_cases hlen : key.length = 8
      · have hkeyed : numberKeyed ((key, value) :: later) = (key, value) :: numberKeyed later :=
          List.takeWhile_cons_of_pos (by simpa using hlen)
        rw [if_neg (not_not.mpr hlen), hkeyed]
        cases value with
        | none =>
            have hnone : numberedEntry (key, none) = none := by simp [numberedEntry]
            rw [List.filterMap_cons_none hnone]
            exact ih hlt
        | some evt =>
            have hsome : numberedEntry (key, some evt) = some (decodeSeqKey key, evt) := by
              simp [numberedEntry, hlen]
            obtain ⟨room, hroom⟩ : ∃ room, limit - events.length = room + 1 :=
              ⟨limit - events.length - 1, by omega⟩
            have hmore : (events ++ [evt]).length = events.length + 1 := by simp
            rw [List.filterMap_cons_some hsome, hroom, List.take_succ_cons, List.map_cons]
            dsimp only
            by_cases hfull : (0 : Int) < limit ∧ (limit : Int) ≤ (events ++ [evt]).length
            · have hzero : room = 0 := by omega
              rw [if_pos hfull, hzero]
              simp
            · rw [if_neg hfull, ih (by omega), hmore,
                show limit - (events.length + 1) = room by omega, List.append_assoc]
              rfl
      · rw [if_pos hlen, numberKeyed, List.takeWhile_cons_of_neg (by simpa using hlen)]
        simp

/-! ### The cursor -/

/-- What the cursor walks from a number on, as numbered events. -/
theorem numbered_seek (s : StoredEvents) {n : Nat} (hn : n < 2 ^ 64) :
    (s.bucket.seek (encodeSeqKey n)).filterMap numberedEntry =
      s.numbered.filter fun p => n ≤ p.1 := by
  unfold StoredEvents.numbered
  rw [Bucket.seek_eq_filter, List.filterMap_filter, List.filter_filterMap]
  refine List.filterMap_congr fun entry _ => ?_
  cases hentry : numberedEntry entry with
  | none => simp
  | some p =>
      obtain ⟨m, evt⟩ := p
      obtain ⟨hm, rfl⟩ := numberedEntry_eq_some.mp hentry
      have hle : encodeSeqKey n ≤ encodeSeqKey m ↔ n ≤ m := by
        rw [← not_lt, key_lt_iff (length_encodeSeqKey _) (length_encodeSeqKey _),
          decode_encodeSeqKey hm, decode_encodeSeqKey hn, not_lt]
      by_cases h : n ≤ m
      · simp [hle, h, Option.filter]
      · simp [hle, h, Option.filter]

/-- Two lists agree up to a length. -/
theorem take_append_eq_iff {α β : Type} (f : α → β) {as bs : List α} {n : Nat} :
    (as.take n).map f = ((as ++ bs).take n).map f ↔ n ≤ as.length ∨ bs = [] := by
  constructor
  · intro h
    have hlen := congrArg List.length h
    simp only [List.length_map, List.length_take, List.length_append] at hlen
    by_cases hnil : bs = []
    · exact .inr hnil
    · have hpos := List.length_pos_iff.mpr hnil
      left
      omega
  · rintro (hle | rfl)
    · rw [List.take_append_of_le_length hle]
    · rw [List.append_nil]

/-- The loop ends early exactly if a key that is no number stands before one of the first
events. -/
theorem numberKeyed_take_iff {entries : List (Bytes × Option Event)} {limit : Nat}
    (hsorted : entries.Pairwise fun a b => a.1 < b.1) :
    (((numberKeyed entries).filterMap numberedEntry).take limit).map Prod.snd =
        ((entries.filterMap numberedEntry).take limit).map Prod.snd ↔
      ∀ entry ∈ entries, entry.1.length ≠ 8 →
        ∀ p ∈ (entries.filterMap numberedEntry).take limit, encodeSeqKey p.1 < entry.1 := by
  have hsplit : numberKeyed entries ++ entries.dropWhile (fun entry => entry.1.length = 8) =
      entries := List.takeWhile_append_dropWhile
  have hkeyed : ∀ entry ∈ numberKeyed entries, entry.1.length = 8 := fun entry hentry => by
    simpa using List.mem_takeWhile_imp hentry
  have hhead := List.head?_dropWhile_not (fun entry : Bytes × Option Event => entry.1.length = 8)
    entries
  generalize numberKeyed entries = front at hsplit hkeyed ⊢
  generalize entries.dropWhile (fun entry => entry.1.length = 8) = back at hsplit hhead
  subst hsplit
  obtain ⟨-, hback, hcross⟩ := List.pairwise_append.mp hsorted
  rw [List.filterMap_append, take_append_eq_iff]
  constructor
  · -- all of the events are in front, and the other keys are at the back
    rintro h entry hentry hlen p hp
    have hfront : p ∈ front.filterMap numberedEntry := by
      rcases h with hle | hnil
      · rw [List.take_append_of_le_length hle] at hp
        exact List.mem_of_mem_take hp
      · rw [hnil, List.append_nil] at hp
        exact List.mem_of_mem_take hp
    obtain ⟨e, he, hep⟩ := List.mem_filterMap.mp hfront
    obtain ⟨-, rfl⟩ := numberedEntry_eq_some.mp hep
    rcases List.mem_append.mp hentry with hin | hin
    · exact absurd (hkeyed entry hin) hlen
    · exact hcross _ he _ hin
  · intro h
    cases back with
    | nil => exact .inr rfl
    | cons first rest =>
        have hfirst : first.1.length ≠ 8 := by simpa using hhead
        obtain ⟨hrest, -⟩ := List.pairwise_cons.mp hback
        have hnone : numberedEntry first = none := if_neg hfirst
        rw [List.filterMap_cons_none hnone] at h ⊢
        by_contra hcon
        rw [not_or, not_le] at hcon
        obtain ⟨p, more, hp⟩ := List.exists_cons_of_ne_nil hcon.2
        have hmem : p ∈ (front.filterMap numberedEntry ++ rest.filterMap numberedEntry).take limit := by
          rw [hp, List.take_append, List.mem_append]
          right
          obtain ⟨room, hroom⟩ : ∃ room, limit - (front.filterMap numberedEntry).length = room + 1 :=
            ⟨limit - (front.filterMap numberedEntry).length - 1, by omega⟩
          rw [hroom, List.take_succ_cons]
          exact List.mem_cons_self
        have hlt := h first (List.mem_append_right _ List.mem_cons_self) hfirst p hmem
        obtain ⟨e, he, hep⟩ := List.mem_filterMap.mp (hp ▸ List.mem_cons_self : p ∈ rest.filterMap numberedEntry)
        obtain ⟨-, rfl⟩ := numberedEntry_eq_some.mp hep
        exact absurd (hlt.trans (hrest _ he)) (lt_irrefl _)

/-! ### The window -/

/-- What the list returns is the window: the first `limit` of the events after the number. -/
def ReplaysWindow (s : StoredEvents) (afterSeq : UInt64) (limit : Int) : Prop :=
  ∃ all : List (Nat × Event), all.Pairwise (fun a b => a.1 < b.1) ∧
    (∀ n evt, (n, evt) ∈ all ↔ s.Holds n evt ∧ afterSeq.toNat < n) ∧
    s.listEventsAfterSeq afterSeq limit = (all.take limit.toNat).map Prod.snd

/-- No key of another shape stands where the loop would meet it: behind the next number and
before one of the events to return.  After the largest number nothing is to be returned, and
every event must have such a key before it. -/
def NoKeyInWindow (s : StoredEvents) (afterSeq : UInt64) (limit : Int) : Prop :=
  if afterSeq.toNat + 1 < 2 ^ 64 then
    ∀ key value, s.bucket.get? key = some value → key.length ≠ 8 →
      encodeSeqKey (afterSeq.toNat + 1) ≤ key →
      ∀ p ∈ (s.after afterSeq).take limit.toNat, encodeSeqKey p.1 < key
  else
    ∀ n evt, s.Holds n evt → ∃ key value, s.bucket.get? key = some value ∧ key.length ≠ 8 ∧
      encodeSeqKey 0 ≤ key ∧ key < encodeSeqKey n

/-- There is one list of the events after a number. -/
theorem replaysWindow_iff {s : StoredEvents} {afterSeq : UInt64} {limit : Int} :
    ReplaysWindow s afterSeq limit ↔
      s.listEventsAfterSeq afterSeq limit = ((s.after afterSeq).take limit.toNat).map Prod.snd := by
  constructor
  · rintro ⟨all, hsorted, hmem, heq⟩
    have hall : all = s.after afterSeq :=
      StoredEvents.eq_of_numbered hsorted (s.after_sorted afterSeq) fun ⟨n, evt⟩ => by
        rw [hmem, StoredEvents.mem_after]
    rw [heq, hall]
  · intro h
    exact ⟨s.after afterSeq, s.after_sorted afterSeq, fun n evt => StoredEvents.mem_after, h⟩

/-- The list as it comes out of the walk. -/
theorem listEventsAfterSeq_eq (s : StoredEvents) (afterSeq : UInt64) {limit : Int} (h : 0 < limit) :
    s.listEventsAfterSeq afterSeq limit =
      (((numberKeyed (s.bucket.seek (encodeSeqKey (afterSeq + 1).toNat))).filterMap
        numberedEntry).take limit.toNat).map Prod.snd := by
  obtain ⟨count, rfl⟩ := Int.eq_ofNat_of_zero_le h.le
  unfold StoredEvents.listEventsAfterSeq
  exact (replayLoop_eq (by simpa using h) _).trans (List.nil_append _)

/-- After the largest number the cursor is at the start: it returns nothing exactly if the
walk ends at once. -/
theorem replay_last_iff {s : StoredEvents} {limit : Int} (h : 0 < limit) :
    s.listEventsAfterSeq (-1) limit = [] ↔
      ∀ n evt, s.Holds n evt → ∃ key value, s.bucket.get? key = some value ∧ key.length ≠ 8 ∧
        encodeSeqKey 0 ≤ key ∧ key < encodeSeqKey n := by
  rw [listEventsAfterSeq_eq s _ h, show ((-1 : UInt64) + 1).toNat = 0 by decide]
  have hzero : ∀ n < 2 ^ 64, encodeSeqKey 0 ≤ encodeSeqKey n := fun n hn => by
    rw [← not_lt, key_lt_iff (length_encodeSeqKey _) (length_encodeSeqKey _),
      decode_encodeSeqKey hn, decode_encodeSeqKey (by decide)]
    omega
  cases hwalk : s.bucket.seek (encodeSeqKey 0) with
  | nil =>
      refine iff_of_true (by simp [numberKeyed]) fun n evt hholds => ?_
      have hmem : (encodeSeqKey n, some evt) ∈ s.bucket.seek (encodeSeqKey 0) :=
        Bucket.mem_seek.mpr ⟨hzero n hholds.1, hholds.2⟩
      rw [hwalk] at hmem
      exact absurd hmem List.not_mem_nil
  | cons first rest =>
      obtain ⟨hrest, -⟩ := List.pairwise_cons.mp (hwalk ▸ s.bucket.seek_sorted (encodeSeqKey 0))
      have hfirst : first ∈ s.bucket.seek (encodeSeqKey 0) := hwalk ▸ List.mem_cons_self
      obtain ⟨hle, hget⟩ := Bucket.mem_seek.mp hfirst
      by_cases hlen : first.1.length = 8
      · -- the first entry is an event, and it is returned
        obtain ⟨evt, hevt, -⟩ := s.written first.1 first.2 hget hlen
        have hsome : numberedEntry first = some (decodeSeqKey first.1, evt) := by
          unfold numberedEntry
          rw [if_pos hlen, hevt]
          rfl
        refine iff_of_false ?_ ?_
        · obtain ⟨count, rfl⟩ : ∃ count : Nat, limit = (count + 1 : Nat) :=
            ⟨limit.toNat - 1, by omega⟩
          rw [numberKeyed, List.takeWhile_cons_of_pos (by simpa using hlen),
            List.filterMap_cons_some hsome, Int.toNat_natCast, List.take_succ_cons]
          simp
        · intro hall
          have hkey : encodeSeqKey (decodeSeqKey first.1) = first.1 := encode_decodeSeqKey hlen
          obtain ⟨key, value, hget', hlen', hle', hlt⟩ := hall (decodeSeqKey first.1) evt
            ⟨decodeSeqKey_lt hlen, by rw [hkey, hget, hevt]⟩
          have hmem : (key, value) ∈ s.bucket.seek (encodeSeqKey 0) :=
            Bucket.mem_seek.mpr ⟨hle', hget'⟩
          rw [hkey] at hlt
          rw [hwalk] at hmem
          rcases List.mem_cons.mp hmem with heq | hmem
          · rw [← heq] at hlt
            exact lt_irrefl _ hlt
          · exact absurd (hlt.trans (hrest _ hmem)) (lt_irrefl _)
      · refine iff_of_true ?_ fun n evt hholds => ?_
        · rw [numberKeyed, List.takeWhile_cons_of_neg (by simpa using hlen)]
          simp
        · have hmem : (encodeSeqKey n, some evt) ∈ s.bucket.seek (encodeSeqKey 0) :=
            Bucket.mem_seek.mpr ⟨hzero n hholds.1, hholds.2⟩
          rw [hwalk] at hmem
          rcases List.mem_cons.mp hmem with heq | hmem
          · exact absurd (by rw [← heq]; exact length_encodeSeqKey n) hlen
          · exact ⟨first.1, first.2, hget, hlen, hle, hrest _ hmem⟩

/--
For every store, number and positive limit, the list after the number is the window, the first
`limit` events after it and no other, exactly if no key of another shape is in the way and,
after the largest number, such a key is before every event.
-/
theorem listEventsAfterSeq_window (s : StoredEvents) (afterSeq : UInt64) (limit : Int)
    (h : 0 < limit) : ReplaysWindow s afterSeq limit ↔ NoKeyInWindow s afterSeq limit := by
  rw [replaysWindow_iff]
  unfold NoKeyInWindow
  have hlt := afterSeq.toNat_lt
  by_cases hnext : afterSeq.toNat + 1 < 2 ^ 64
  · have hseq : (afterSeq + 1).toNat = afterSeq.toNat + 1 := by
      rw [UInt64.toNat_add]
      exact Nat.mod_eq_of_lt hnext
    have hafter : (s.bucket.seek (encodeSeqKey (afterSeq.toNat + 1))).filterMap numberedEntry =
        s.after afterSeq := numbered_seek s hnext
    rw [if_pos hnext, listEventsAfterSeq_eq s _ h, hseq, ← hafter,
      numberKeyed_take_iff (s.bucket.seek_sorted _)]
    constructor
    · intro hall key value hget hlen hle
      exact hall (key, value) (Bucket.mem_seek.mpr ⟨hle, hget⟩) hlen
    · intro hall entry hentry hlen
      obtain ⟨hle, hget⟩ := Bucket.mem_seek.mp hentry
      exact hall entry.1 entry.2 hget hlen hle
  · have hlast : afterSeq = -1 := by
      apply UInt64.toNat_inj.mp
      rw [show (-1 : UInt64).toNat = 2 ^ 64 - 1 by decide]
      omega
    have hnil : s.after afterSeq = [] := by
      rw [List.eq_nil_iff_forall_not_mem]
      rintro ⟨n, evt⟩ hmem
      obtain ⟨⟨hn, -⟩, hgt⟩ := StoredEvents.mem_after.mp hmem
      omega
    rw [if_neg hnext, hnil, hlast, List.take_nil, List.map_nil]
    exact replay_last_iff h

/-- The window of one after the first of three events. -/
theorem listEventsAfterSeq_second :
    (ReplaysWindow threeEvents 1 1 ↔ NoKeyInWindow threeEvents 1 1) ∧
      (threeEvents.listEventsAfterSeq 1 1).map Event.id = ["2"] :=
  ⟨listEventsAfterSeq_window threeEvents 1 1 (by decide), by decide +kernel⟩

/-- After the largest number come all of the events again. -/
theorem listEventsAfterSeq_wraps :
    ¬ ∀ (s : StoredEvents) (afterSeq : UInt64) (limit : Int), 0 < limit →
      ReplaysWindow s afterSeq limit := by
  intro h
  have hwindow := replaysWindow_iff.mp (h threeEvents 18446744073709551615 10 (by decide))
  have hids := congrArg (List.map Event.id) hwindow
  exact absurd hids (by decide +kernel)

end VMSmith
