/-
The filtered list is exact.

The list comes out of a walk that starts at a key which need not be there, passes over
keys that are no numbers and stops early.  Since eight-byte keys stand in the order of
their numbers, where the walk starts is a bound on the number and where it stops is
another, so what it collects is every event that the bounds and the predicates let
through.  The predicates are those of the live stream, written out a second time.
-/
import VMSmith.Events.EventList

namespace VMSmith

open Go

/-! ### What is stored -/

/-- The event of this number. -/
def StoredEvents.Holds (s : StoredEvents) (n : Nat) (evt : Event) : Prop :=
  n < 2 ^ 64 ∧ s.bucket.get? (encodeSeqKey n) = some (some evt)

/-- An entry as a numbered event, if it is one. -/
def numberedEntry (entry : Bytes × Option Event) : Option (Nat × Event) :=
  if entry.1.length = 8 then entry.2.map (decodeSeqKey entry.1, ·) else none

theorem numberedEntry_eq_some {entry : Bytes × Option Event} {n : Nat} {evt : Event} :
    numberedEntry entry = some (n, evt) ↔ n < 2 ^ 64 ∧ entry = (encodeSeqKey n, some evt) := by
  obtain ⟨key, value⟩ := entry
  unfold numberedEntry
  constructor
  · intro h
    split_ifs at h with hlen
    obtain ⟨evt', rfl, heq⟩ := Option.map_eq_some_iff.mp h
    injection heq with hn hevt
    subst hn hevt
    exact ⟨decodeSeqKey_lt hlen, by rw [encode_decodeSeqKey hlen]⟩
  · rintro ⟨hn, heq⟩
    injection heq with hkey hvalue
    subst hkey hvalue
    rw [if_pos (length_encodeSeqKey n), Option.map_some, decode_encodeSeqKey hn]

namespace StoredEvents

/-- The numbered events, oldest first. -/
def numbered (s : StoredEvents) : List (Nat × Event) := s.bucket.entries.filterMap numberedEntry

theorem mem_numbered {s : StoredEvents} {n : Nat} {evt : Event} :
    (n, evt) ∈ s.numbered ↔ s.Holds n evt := by
  unfold numbered Holds
  rw [List.mem_filterMap]
  constructor
  · rintro ⟨entry, hmem, hentry⟩
    obtain ⟨hn, rfl⟩ := numberedEntry_eq_some.mp hentry
    exact ⟨hn, Bucket.mem_entries.mp hmem⟩
  · rintro ⟨hn, hget⟩
    exact ⟨_, Bucket.mem_entries.mpr hget, numberedEntry_eq_some.mpr ⟨hn, rfl⟩⟩

theorem numbered_sorted (s : StoredEvents) :
    s.numbered.Pairwise fun a b => a.1 < b.1 := by
  unfold numbered
  refine List.Pairwise.filterMap _ ?_ s.bucket.sorted
  intro a b hlt p hp q hq
  obtain ⟨hpn, rfl⟩ := numberedEntry_eq_some.mp hp
  obtain ⟨hqn, rfl⟩ := numberedEntry_eq_some.mp hq
  rw [key_lt_iff (length_encodeSeqKey _) (length_encodeSeqKey _), decode_encodeSeqKey hpn,
    decode_encodeSeqKey hqn] at hlt
  exact hlt

/-- Two lists of the same numbered events in order are one. -/
theorem eq_of_numbered {as bs : List (Nat × Event)} (ha : as.Pairwise fun a b => a.1 < b.1)
    (hb : bs.Pairwise fun a b => a.1 < b.1) (h : ∀ p, p ∈ as ↔ p ∈ bs) : as = bs := by
  have hnodup : ∀ l : List (Nat × Event), (l.Pairwise fun a b => a.1 < b.1) → l.Nodup :=
    fun l hl => hl.imp fun hlt heq => absurd (heq ▸ hlt) (lt_irrefl _)
  refine List.Perm.eq_of_pairwise (fun a b _ _ hab hba => absurd (hab.trans hba) (lt_irrefl _))
    ha hb ?_
  exact (List.perm_ext_iff_of_nodup (hnodup as ha) (hnodup bs hb)).mpr h

end StoredEvents

/-! ### The walk -/

/-- The cursor walks what is not above the start key, backwards. -/
theorem cursorEntries_eq (b : Bucket Bytes (Option Event)) (untilSeq : UInt64) :
    cursorEntries b untilSeq =
      (b.entries.filter fun entry =>
        untilSeq = 0 || entry.1 ≤ encodeSeqKey (untilSeq.toNat - 1)).reverse := by
  unfold cursorEntries
  by_cases h0 : 0 < untilSeq
  · rw [if_pos h0]
    dsimp only
    generalize encodeSeqKey (untilSeq.toNat - 1) = startKey
    have hne : untilSeq ≠ 0 := by
      rintro rfl
      exact absurd h0 (by decide)
    simp only [hne, decide_false, Bool.false_or]
    have hsplit := b.reverse_before_append_seek startKey
    have hbelow : (b.before startKey).reverse.filter (fun entry => entry.1 ≤ startKey) =
        (b.before startKey).reverse := by
      rw [List.filter_eq_self]
      intro entry hentry
      simpa using le_of_lt (Bucket.lt_of_mem_before (List.mem_reverse.mp hentry))
    have hall : b.entries.filter (fun entry => entry.1 ≤ startKey) =
        (b.before startKey).reverse ++
          (b.seek startKey).filter fun entry => entry.1 ≤ startKey := by
      rw [← hsplit, List.filter_append, hbelow]
    rw [hall]
    cases hseek : b.seek startKey with
    | nil =>
        rw [hseek, List.append_nil] at hsplit
        dsimp only
        rw [List.filter_nil, List.append_nil, hsplit]
    | cons first rest =>
        obtain ⟨hfirst, hrest⟩ := List.pairwise_cons.mp (hseek ▸ b.seek_sorted startKey)
        have hle : startKey ≤ first.1 :=
          (Bucket.mem_seek.mp (hseek ▸ List.mem_cons_self : first ∈ b.seek startKey)).1
        have hnone : rest.filter (fun entry => entry.1 ≤ startKey) = [] := by
          rw [List.filter_eq_nil_iff]
          intro entry hentry
          simpa using lt_of_le_of_lt hle (hfirst entry hentry)
        dsimp only
        by_cases hkey : first.1 = startKey
        · rw [if_neg (not_not.mpr hkey), List.filter_cons_of_pos (by simp [hkey]), hnone,
            List.reverse_append, List.reverse_reverse]
          rfl
        · have hlt : startKey < first.1 := lt_of_le_of_ne hle (Ne.symm hkey)
          rw [if_pos hkey, List.filter_cons_of_neg (by simpa using hlt), hnone, List.append_nil,
            List.reverse_reverse]
  · have h0' : untilSeq = 0 := by
      by_contra hne
      exact h0 (UInt64.pos_iff_ne_zero.mpr hne)
    rw [if_neg h0, h0']
    simp

/-- What is older than where the walk stops would stop it as well. -/
theorem Since.stopsAt_mono {since : Since} {m n : Nat} (h : since.stopsAt n = true) (hle : m ≤ n) :
    since.stopsAt m = true := by
  cases since with
  | seq bound =>
      simp only [Since.stopsAt, Bool.and_eq_true, decide_eq_true_eq] at h ⊢
      exact ⟨h.1, hle.trans h.2⟩
  | _ => exact absurd h (by simp [Since.stopsAt])

/-- The walk collects what the stop and the predicates let through. -/
theorem EventFilter.collect_eq (f : EventFilter) {entries : List (Bytes × Option Event)}
    (h : entries.Pairwise fun a b => b.1 < a.1) :
    f.collect entries = ((entries.filterMap numberedEntry).filter fun p =>
      !f.since.stopsAt p.1 && f.passes p.2).map Prod.snd := by
  induction entries with
  | nil => rfl
  | cons entry older ih =>
      obtain ⟨hentry, holder⟩ := List.pairwise_cons.mp h
      obtain ⟨key, value⟩ := entry
      unfold EventFilter.collect
      by_cases hlen : key.length = 8
      · rw [if_neg (not_not.mpr hlen)]
        have holderLt : ∀ p ∈ older.filterMap numberedEntry, p.1 < decodeSeqKey key := by
          intro p hp
          obtain ⟨e, he, hep⟩ := List.mem_filterMap.mp hp
          obtain ⟨hn, rfl⟩ := numberedEntry_eq_some.mp hep
          have hlt := (key_lt_iff (length_encodeSeqKey _) hlen).mp (hentry _ he)
          rwa [decode_encodeSeqKey hn] at hlt
        by_cases hstop : f.since.stopsAt (decodeSeqKey key) = true
        · rw [if_pos hstop]
          have hstops : ∀ p ∈ ((key, value) :: older).filterMap numberedEntry,
              f.since.stopsAt p.1 = true := by
            intro p hp
            refine Since.stopsAt_mono hstop ?_
            obtain ⟨e, he, hep⟩ := List.mem_filterMap.mp hp
            rcases List.mem_cons.mp he with rfl | he
            · obtain ⟨hn, heq⟩ := numberedEntry_eq_some.mp hep
              injection heq with hkey _
              rw [hkey, decode_encodeSeqKey hn]
            · exact (holderLt p (List.mem_filterMap.mpr ⟨e, he, hep⟩)).le
          rw [List.filter_eq_nil_iff.mpr]
          · rfl
          · intro p hp
            simp [hstops p hp]
        · rw [if_neg hstop]
          cases value with
          | none =>
              have hnone : numberedEntry (key, none) = none := by simp [numberedEntry]
              rw [List.filterMap_cons_none hnone]
              exact ih holder
          | some evt =>
              have hsome : numberedEntry (key, some evt) = some (decodeSeqKey key, evt) := by
                simp [numberedEntry, hlen]
              rw [List.filterMap_cons_some hsome]
              dsimp only
              by_cases hpass : f.passes evt = true
              · rw [if_pos hpass, List.filter_cons_of_pos (by simp [hstop, hpass]), ih holder]
                rfl
              · rw [if_neg hpass, List.filter_cons_of_neg (by simp [hpass]), ih holder]
      · have hnone : numberedEntry (key, value) = none := if_neg hlen
        rw [if_pos hlen, List.filterMap_cons_none hnone]
        exact ih holder

/-! ### What is listed -/

/-- The event is after the lower bound, by time or by number; zero is no bound. -/
def Since.Before : Since → Nat → Event → Prop
  | .unset, _, _ => True
  | .time t, _, evt => t = 0 ∨ t < evt.timestamp
  | .seq bound, n, _ => bound = 0 ∨ bound.toNat < n

/-- The event of number `n` belongs on the list. -/
def EventFilter.Matches (f : EventFilter) (n : Nat) (evt : Event) : Prop :=
  eventMatchesStreamFilter evt f.toEventStreamFilter = true ∧
    (0 < f.untilSeq → n < f.untilSeq.toNat) ∧ f.since.Before n evt

/-- The list's predicates are those of the stream, and the bound on the time. -/
theorem EventFilter.passes_eq (f : EventFilter) (evt : Event) :
    f.passes evt = (eventMatchesStreamFilter evt f.toEventStreamFilter && f.since.admits evt) := by
  unfold EventFilter.passes eventMatchesStreamFilter
  cases f.since.admits evt with
  | true => simp only [not_true, if_false, Bool.and_true]
  | false =>
      simp only [Bool.false_eq_true, not_false_iff, if_true, Bool.and_false, ite_self]

theorem Since.before_iff (since : Since) (n : Nat) (evt : Event) :
    since.Before n evt ↔ since.stopsAt n = false ∧ since.admits evt = true := by
  cases since with
  | unset => simp [Since.Before, Since.stopsAt, Since.admits]
  | time t => simp [Since.Before, Since.stopsAt, Since.admits, Classical.or_iff_not_imp_left]
  | seq bound =>
      simp only [Since.Before, Since.stopsAt, Since.admits, and_true, Bool.and_eq_false_iff,
        decide_eq_false_iff_not, not_le]
      rw [UInt64.pos_iff_ne_zero, not_not]

instance (since : Since) (n : Nat) (evt : Event) : Decidable (since.Before n evt) :=
  decidable_of_iff _ (since.before_iff n evt).symm

instance (f : EventFilter) (n : Nat) (evt : Event) : Decidable (f.Matches n evt) :=
  inferInstanceAs (Decidable (_ ∧ _ ∧ _))

/-- Where the cursor starts is the bound on the number. -/
theorem startKey_iff (untilSeq : UInt64) {n : Nat} (hn : n < 2 ^ 64) :
    (untilSeq = 0 ∨ encodeSeqKey n ≤ encodeSeqKey (untilSeq.toNat - 1)) ↔
      (0 < untilSeq → n < untilSeq.toNat) := by
  have huntil : untilSeq.toNat - 1 < 2 ^ 64 := by
    have hlt := untilSeq.toNat_lt
    omega
  have hle : encodeSeqKey n ≤ encodeSeqKey (untilSeq.toNat - 1) ↔ n ≤ untilSeq.toNat - 1 := by
    rw [← not_lt, key_lt_iff (length_encodeSeqKey _) (length_encodeSeqKey _),
      decode_encodeSeqKey hn, decode_encodeSeqKey huntil, not_lt]
  rw [hle, UInt64.lt_iff_toNat_lt, ← UInt64.toNat_inj]
  simp only [UInt64.toNat_zero]
  omega

/-- The events that belong on the list, newest first. -/
def StoredEvents.matching (s : StoredEvents) (f : EventFilter) : List (Nat × Event) :=
  (s.numbered.filter fun p => f.Matches p.1 p.2).reverse

namespace StoredEvents

variable {s : StoredEvents} {f : EventFilter}

theorem mem_matching {n : Nat} {evt : Event} :
    (n, evt) ∈ s.matching f ↔ s.Holds n evt ∧ f.Matches n evt := by
  unfold matching
  rw [List.mem_reverse, List.mem_filter, mem_numbered, decide_eq_true_eq]

theorem matching_sorted : (s.matching f).Pairwise fun a b => b.1 < a.1 := by
  unfold matching
  rw [List.pairwise_reverse]
  exact s.numbered_sorted.filter _

/-- What the walk collects is what belongs on the list. -/
theorem collect_eq_matching :
    f.collect (cursorEntries s.bucket f.untilSeq) = (s.matching f).map Prod.snd := by
  have hsorted : (cursorEntries s.bucket f.untilSeq).Pairwise fun a b => b.1 < a.1 := by
    rw [cursorEntries_eq, List.pairwise_reverse]
    exact s.bucket.sorted.filter _
  rw [f.collect_eq hsorted, cursorEntries_eq]
  unfold matching numbered
  rw [List.filterMap_reverse, List.filter_reverse, List.filterMap_filter, List.filter_filterMap,
    List.filter_filterMap]
  congr 2
  refine List.filterMap_congr fun entry _ => ?_
  cases hentry : numberedEntry entry with
  | none => simp
  | some p =>
      obtain ⟨n, evt⟩ := p
      obtain ⟨hn, rfl⟩ := numberedEntry_eq_some.mp hentry
      have hmatches : f.Matches n evt ↔ (f.untilSeq = 0 ∨
          encodeSeqKey n ≤ encodeSeqKey (f.untilSeq.toNat - 1)) ∧
          f.since.stopsAt n = false ∧ f.passes evt = true := by
        unfold EventFilter.Matches
        rw [startKey_iff f.untilSeq hn, f.since.before_iff, f.passes_eq, Bool.and_eq_true]
        tauto
      simp only [Option.filter, hmatches, Bool.or_eq_true, decide_eq_true_eq]
      by_cases hkey : f.untilSeq = 0 ∨ encodeSeqKey n ≤ encodeSeqKey (f.untilSeq.toNat - 1)
      · simp [hkey]
      · simp [hkey]

end StoredEvents

/-! ### The page -/

/-- The bounds of the page can be computed. -/
def PageFits (page perPage : Int) : Prop := 0 < perPage → (max page 1 - 1) * perPage < 2 ^ 63

/-- The page of a list: everything when there is no page size, and from `(page - 1) * perPage`
up to `page * perPage` otherwise, where the first page is the least. -/
def pageOf {α : Type} (page perPage : Int) (all : List α) : List α :=
  if 0 < perPage then (all.drop ((max page 1 - 1) * perPage).toNat).take perPage.toNat else all

theorem paginate_eq {α : Type} {page perPage : Int} (h : PageFits page perPage) (all : List α) :
    paginate page perPage all = some (pageOf page perPage all) := by
  unfold paginate pageOf
  by_cases hper : 0 < perPage
  · have hpage : (if page < 1 then 1 else page) = max page 1 := by
      split_ifs <;> omega
    have hstart : 0 ≤ (max page 1 - 1) * perPage := Int.mul_nonneg (by omega) hper.le
    have hbmod : ((max page 1 - 1) * perPage).bmod (2 ^ 64) = (max page 1 - 1) * perPage := by
      have hlt := h hper
      refine Int.bmod_eq_of_le ?_ ?_ <;> omega
    rw [if_pos hper, if_pos hper]
    dsimp only
    rw [hpage, hbmod]
    generalize (max page 1 - 1) * perPage = start at hstart ⊢
    by_cases hlen : (all.length : Int) ≤ start
    · rw [if_pos hlen, List.drop_eq_nil_of_le (by omega), List.take_nil]
    · rw [if_neg hlen]
      split_ifs with hstop hbounds hbounds
      · congr 1
        rw [List.take_of_length_le (by rw [List.length_drop]; omega),
          List.take_of_length_le (by rw [List.length_drop]; omega)]
      · omega
      · congr 2
        omega
      · omega
  · rw [if_neg hper, if_neg hper]

/-- A bucket with an entry of an older version and three events. -/
def threeEvents : StoredEvents :=
  let empty := StoredEvents.legacy (Bucket.empty.put (ascii "1700000000-7") none) (by
    intro key value hget
    rcases Bucket.mem_put hget with ⟨rfl, -⟩ | ⟨-, hold⟩
    · decide
    · exact absurd hold (by simp))
  (((empty.appendEvent { type := "vm.started" }).2.appendEvent { type := "vm.stopped" }).2.appendEvent
    { type := "VM.deleted", severity := "warn" }).2

end VMSmith
