/-
The history of a schedule is its newest runs.

The keys of one schedule's runs are in the order of their start times, and no key of another
schedule begins like them, as long as the IDs have no slash, the times do not lie before 1970
and no two runs share a key.  Then the runs that are kept are the newest of those appended: a
run that comes in pushes out the oldest of what is there, be it itself.
-/
import VMSmith.Scheduler.RunHistory
import VMSmith.Lib.Run

namespace VMSmith

open Go

/-! ### Keys -/

/-- Without slashes in the IDs, a key begins like those of one schedule only. -/
theorem runPrefix_inj {id id' rest : Bytes} (hid : slash ∉ id) (hid' : slash ∉ id')
    (h : runPrefix id <+: id' ++ slash :: rest) : id = id' := by
  unfold runPrefix at h
  induction id generalizing id' with
  | nil =>
      cases id' with
      | nil => rfl
      | cons b id' =>
          rw [List.nil_append, List.cons_append, List.cons_prefix_cons] at h
          exact absurd (h.1 ▸ List.mem_cons_self) hid'
  | cons a id ih =>
      cases id' with
      | nil =>
          rw [List.nil_append, List.cons_append, List.cons_prefix_cons] at h
          exact absurd (h.1 ▸ List.mem_cons_self) hid
      | cons b id' =>
          rw [List.cons_append, List.cons_append, List.cons_prefix_cons] at h
          have htail := ih (fun hmem => hid (List.mem_cons_of_mem _ hmem))
            (fun hmem => hid' (List.mem_cons_of_mem _ hmem)) h.2
          rw [h.1, htail]

theorem runPrefix_key (id : Bytes) (n : Nat) : runPrefix id <+: scheduleRunKey id n := by
  unfold runPrefix scheduleRunKey
  exact ⟨encodeSeqKey n, by simp⟩

/-- The key can hold the time. -/
def InRange (t : Int) : Prop := 0 ≤ t ∧ t < 2 ^ 64

instance (t : Int) : Decidable (InRange t) := inferInstanceAs (Decidable (_ ∧ _))

theorem append_lt_append_iff (id as bs : Bytes) : id ++ as < id ++ bs ↔ as < bs := by
  induction id with
  | nil => rfl
  | cons a id ih =>
      rw [List.cons_append, List.cons_append, List.cons_lt_cons_iff, ih]
      simp

/-- The keys of a schedule are in the order of the times. -/
theorem scheduleRunKey_lt_iff {id : Bytes} {t t' : Int} (ht : InRange t) (ht' : InRange t') :
    scheduleRunKey id (unixNano t) < scheduleRunKey id (unixNano t') ↔ t < t' := by
  have hrange : ∀ {t : Int}, InRange t → (unixNano t : Int) = t ∧ unixNano t < 2 ^ 64 := by
    rintro t ⟨hlow, hhigh⟩
    unfold unixNano
    rw [Int.emod_eq_of_lt hlow hhigh]
    omega
  obtain ⟨hnano, hlt⟩ := hrange ht
  obtain ⟨hnano', hlt'⟩ := hrange ht'
  unfold scheduleRunKey
  rw [append_lt_append_iff, List.cons_lt_cons_iff, key_lt_iff (length_encodeSeqKey _)
    (length_encodeSeqKey _), decode_encodeSeqKey hlt, decode_encodeSeqKey hlt']
  simp only [lt_irrefl, false_or, true_and]
  omega

/-! ### The list -/

theorem listRunsLoop_eq {start : Bytes} {entries : List (Bytes × StoredRun)} {limit : Int}
    (hsorted : entries.Pairwise fun e e' => e'.1 < e.1) (runs : List StoredRun)
    (hroom : 0 < limit → runs.length < limit) :
    listRunsLoop start limit runs entries =
      let listed := runs ++ (entries.filter fun e => start.isPrefixOf e.1).map Prod.snd
      if 0 < limit then listed.take limit.toNat else listed := by
  induction entries generalizing runs with
  | nil =>
      simp only [listRunsLoop, List.filter_nil, List.map_nil, List.append_nil]
      by_cases hlimit : 0 < limit
      · have hlen := hroom hlimit
        rw [if_pos hlimit, List.take_of_length_le (by omega)]
      · rw [if_neg hlimit]
  | cons entry older ih =>
      obtain ⟨hentry, holder⟩ := List.pairwise_cons.mp hsorted
      obtain ⟨key, run⟩ := entry
      unfold listRunsLoop
      by_cases hkey : start.isPrefixOf key = true
      · have hlen : (runs ++ [run]).length = runs.length + 1 := by simp
        rw [if_neg (not_not.mpr hkey), List.filter_cons_of_pos (by exact hkey), List.map_cons]
        dsimp only
        by_cases hfull : 0 < limit ∧ limit ≤ ((runs ++ [run]).length : Nat)
        · have hbefore := hroom hfull.1
          have hcount : limit.toNat = (runs ++ [run]).length := by omega
          have hjoin : ∀ more, (runs ++ run :: more).take limit.toNat = runs ++ [run] := fun more => by
            rw [List.append_cons, hcount, List.take_left]
          rw [if_pos hfull, if_pos hfull.1, hjoin]
        · rw [if_neg hfull, ih holder (runs ++ [run]) fun hlimit => by omega]
          simp
      · rw [if_pos hkey, List.filter_cons_of_neg (by exact hkey)]
        by_cases hbelow : key < start
        · -- every older key is below the shared text
          have hnone : older.filter (fun e => start.isPrefixOf e.1) = [] := by
            rw [List.filter_eq_nil_iff]
            intro e he hprefix
            have hle := Bucket.le_of_isPrefix (List.isPrefixOf_iff_prefix.mp hprefix)
            exact absurd ((hentry e he).trans hbelow) (not_lt.mpr hle)
          rw [if_pos hbelow, hnone, List.map_nil, List.append_nil]
          dsimp only
          by_cases hlimit : 0 < limit
          · have hlen := hroom hlimit
            rw [if_pos hlimit, List.take_of_length_le (by omega)]
          · rw [if_neg hlimit]
        · rw [if_neg hbelow]
          exact ih holder runs hroom

/-- The list is the entries of the schedule, from the last to the first. -/
theorem listRuns_eq (b : Bucket Bytes StoredRun) (id : Bytes) (limit : Int) :
    listRuns b id limit =
      let listed := ((b.withPrefix (runPrefix id)).map Prod.snd).reverse
      if 0 < limit then listed.take limit.toNat else listed := by
  have hsorted : b.entries.reverse.Pairwise fun e e' => e'.1 < e.1 :=
    List.pairwise_reverse.mpr b.sorted
  unfold listRuns
  rw [listRunsLoop_eq hsorted [] fun h => by simpa using h, List.filter_reverse, List.map_reverse,
    Bucket.filter_isPrefixOf]
  rfl

/-! ### The newest runs -/

/-- What is listed is the newest of the runs, newest first and each of them once. -/
structure NewestFirst (listed mine : List StoredRun) : Prop where
  length : listed.length = min mine.length runHistoryLimit
  ordered : listed.Pairwise fun a b => b.startedAt < a.startedAt
  newest : ∃ dropped, mine.Perm (listed ++ dropped) ∧
    ∀ old ∈ dropped, ∀ run ∈ listed, old.startedAt < run.startedAt

/-- A run comes in: of it and the runs that are listed the newest are listed now. -/
theorem NewestFirst.append {listed mine sorted : List StoredRun} {run : StoredRun}
    (h : NewestFirst listed mine) (hperm : sorted.Perm (run :: listed))
    (hsorted : sorted.Pairwise fun a b => b.startedAt < a.startedAt) :
    NewestFirst (sorted.take runHistoryLimit) (mine ++ [run]) := by
  obtain ⟨dropped, hmine, hold⟩ := h.newest
  have hlen := h.length
  have hcount := hperm.length_eq
  have hmineLen := hmine.length_eq
  have hsplit := List.take_append_drop runHistoryLimit sorted
  have hcross : ∀ q ∈ sorted.take runHistoryLimit, ∀ r ∈ sorted.drop runHistoryLimit,
      r.startedAt < q.startedAt := by
    rw [← hsplit] at hsorted
    exact (List.pairwise_append.mp hsorted).2.2
  rw [List.length_cons] at hcount
  rw [List.length_append] at hmineLen
  constructor
  · rw [List.length_take, List.length_append, List.length_singleton]
    omega
  · exact hsorted.sublist (List.take_sublist _ _)
  · refine ⟨sorted.drop runHistoryLimit ++ dropped, ?_, ?_⟩
    · calc (mine ++ [run]).Perm ((listed ++ dropped) ++ [run]) := hmine.append_right _
        _ |>.Perm (run :: (listed ++ dropped)) := List.perm_append_singleton _ _
        _ |>.Perm (sorted ++ dropped) := (hperm.append_right dropped).symm
        _ |>.Perm (sorted.take runHistoryLimit ++ (sorted.drop runHistoryLimit ++ dropped)) := by
          rw [← List.append_assoc, hsplit]
    · intro old hin q hq
      rcases List.mem_append.mp hin with hin | hin
      · exact hcross q hq old hin
      · rcases List.mem_cons.mp (hperm.mem_iff.mp (List.mem_of_mem_take hq)) with rfl | hq'
        · -- something was dropped before, so the list is full and a listed run makes room
          have hpos : 0 < dropped.length := List.length_pos_of_mem hin
          obtain ⟨out, hout⟩ : ∃ out, out ∈ sorted.drop runHistoryLimit := by
            refine List.exists_mem_of_length_pos ?_
            rw [List.length_drop]
            omega
          have hlt := hcross q hq out hout
          rcases List.mem_cons.mp (hperm.mem_iff.mp (List.mem_of_mem_drop hout)) with rfl | hlisted
          · exact absurd hlt (lt_irrefl _)
          · exact (hold old hin out hlisted).trans hlt
        · exact hold old hin q hq'

/-! ### Appending -/

/-- The schedule's ID has no slash, the start of the run is not before 1970 and within the
range of the key, and no run that is kept for the schedule started at the same time. -/
def RunFits (w : RunBook) (c : RunCall) : Prop :=
  slash ∉ c.scheduleID ∧ InRange c.stored.startedAt ∧ w.runs.get? c.key = none

instance (w : RunBook) (c : RunCall) : Decidable (RunFits w c) :=
  inferInstanceAs (Decidable (_ ∧ _ ∧ _))

/-- Every run is under the key of its schedule and its start, and of each schedule the newest
runs are there. -/
structure RunsKept (w : RunBook) : Prop where
  keyed : ∀ key run, w.runs.get? key = some run → InRange run.startedAt ∧
    ∃ id, slash ∉ id ∧ key = scheduleRunKey id (unixNano run.startedAt)
  newest : ∀ id, slash ∉ id →
    NewestFirst ((w.runs.withPrefix (runPrefix id)).map Prod.snd).reverse (w.of id)

/-- The entries of a schedule are in the order of their times. -/
theorem withPrefix_ordered {b : Bucket Bytes StoredRun} {id : Bytes} (hid : slash ∉ id)
    (hkeyed : ∀ key run, b.get? key = some run → InRange run.startedAt ∧
      ∃ id, slash ∉ id ∧ key = scheduleRunKey id (unixNano run.startedAt)) :
    (((b.withPrefix (runPrefix id)).map Prod.snd).reverse).Pairwise
      fun a b => b.startedAt < a.startedAt := by
  rw [List.pairwise_reverse, List.pairwise_map]
  refine (b.withPrefix_sorted (runPrefix id)).imp_of_mem fun {e e'} he he' hlt => ?_
  have hof : ∀ e ∈ b.withPrefix (runPrefix id), InRange e.2.startedAt ∧
      e.1 = scheduleRunKey id (unixNano e.2.startedAt) := by
    rintro ⟨key, run⟩ hmem
    obtain ⟨hget, hprefix⟩ := Bucket.mem_withPrefix.mp hmem
    obtain ⟨hrange, id', hid', hkey⟩ := hkeyed key run hget
    rw [hkey] at hprefix
    have heq := runPrefix_inj hid hid' hprefix
    exact ⟨hrange, heq ▸ hkey⟩
  obtain ⟨hrange, hkey⟩ := hof e he
  obtain ⟨hrange', hkey'⟩ := hof e' he'
  rw [hkey, hkey'] at hlt
  exact (scheduleRunKey_lt_iff hrange hrange').mp hlt

theorem runsKept_empty : RunsKept {} := by
  constructor
  · intro key run hget
    exact absurd hget (by simp)
  · intro id _
    refine ⟨rfl, List.Pairwise.nil, [], List.Perm.refl _, fun old hold => ?_⟩
    exact absurd hold List.not_mem_nil

/-- An append keeps the newest runs of its own schedule and leaves those of the others. -/
theorem runsKept_step {w w' : RunBook} {c : RunCall} (h : RunsKept w) (hfits : RunFits w c)
    (hstep : w.step c = some w') : RunsKept w' := by
  obtain ⟨hslash, hrange, hnew⟩ := hfits
  unfold RunBook.step at hstep
  cases happend : appendRun w.runs c with
  | none =>
      rw [happend] at hstep
      injection hstep with hstep
      exact hstep ▸ h
  | some runs =>
      rw [happend] at hstep
      injection hstep with hstep
      subst hstep
      unfold appendRun at happend
      rw [Option.ite_none_left_eq_some] at happend
      obtain ⟨-, happend⟩ := happend
      rw [Option.ite_none_left_eq_some] at happend
      obtain ⟨-, happend⟩ := happend
      dsimp only at happend
      injection happend with hruns
      rw [Bucket.scan_eq, List.length_map, ← List.map_take] at hruns
      have hkeyed : ∀ key run, (w.runs.put c.key c.stored).get? key = some run →
          InRange run.startedAt ∧
            ∃ id, slash ∉ id ∧ key = scheduleRunKey id (unixNano run.startedAt) := by
        intro key run hget
        rcases Bucket.mem_put hget with ⟨rfl, rfl⟩ | ⟨-, hget⟩
        · exact ⟨hrange, c.scheduleID, hslash, rfl⟩
        · exact h.keyed key run hget
      have hkept : ∀ key run, runs.get? key = some run → InRange run.startedAt ∧
            ∃ id, slash ∉ id ∧ key = scheduleRunKey id (unixNano run.startedAt) := by
        intro key run hget
        rw [← hruns, ← Bucket.mem_entries, Bucket.eraseAll_entries, List.mem_filter,
          Bucket.mem_entries] at hget
        exact hkeyed key run hget.1
      refine ⟨hkept, fun id hid => ?_⟩
      dsimp only
      unfold RunBook.of
      rw [List.filter_append, List.map_append]
      by_cases heq : c.scheduleID = id
      · subst heq
        have hmine : (([(c.scheduleID, c.stored)].filter fun p => p.1 = c.scheduleID).map
            Prod.snd : List StoredRun) = [c.stored] := by simp
        rw [hmine, ← hruns, Bucket.withPrefix_eraseFirst]
        have hperm := (Bucket.withPrefix_put (v := c.stored) hnew
          (runPrefix_key c.scheduleID _)).map Prod.snd
        have hsorted := withPrefix_ordered hslash hkeyed
        have hnewest := (h.newest c.scheduleID hslash).append
          ((List.reverse_perm _).trans (hperm.trans
            ((List.reverse_perm _).symm.cons c.stored))) hsorted
        rwa [List.take_reverse, ← List.map_drop, List.length_map] at hnewest
      · have hother : ¬ runPrefix id <+: c.key := fun hprefix =>
          heq (runPrefix_inj hid hslash hprefix).symm
        have hmine : (([(c.scheduleID, c.stored)].filter fun p => p.1 = id).map
            Prod.snd : List StoredRun) = [] := by simp [heq]
        have herased : ∀ k ∈ (((w.runs.put c.key c.stored).withPrefix
            (runPrefix c.scheduleID)).take (((w.runs.put c.key c.stored).withPrefix
              (runPrefix c.scheduleID)).length - runHistoryLimit)).map Prod.fst,
            ¬ runPrefix id <+: k := by
          intro k hk hprefix
          obtain ⟨⟨key, run⟩, hmem, rfl⟩ := List.mem_map.mp hk
          obtain ⟨hget, hown⟩ := Bucket.mem_withPrefix.mp (List.mem_of_mem_take hmem)
          obtain ⟨-, id', hid', hkey⟩ := hkeyed key run hget
          dsimp only at hprefix
          rw [hkey] at hprefix hown
          exact heq ((runPrefix_inj hslash hid' hown).trans (runPrefix_inj hid hid' hprefix).symm)
        rw [hmine, List.append_nil, ← hruns, Bucket.withPrefix_eraseAll herased,
          Bucket.withPrefix_put_other hnew hother]
        exact h.newest id hid

/--
For every sequence of appends, as long as each run fits, the list of a schedule is the newest
200 of the runs appended for it, newest first, each once and none of another schedule; with a
limit it is the first so many of them.
-/
theorem listRuns_newest {calls : List RunCall} {w : RunBook}
    (hfits : Run.Guarded RunBook.step RunFits {} calls)
    (hrun : Run.exec RunBook.step {} calls = some w) (id : Bytes) (hid : slash ∉ id) :
    NewestFirst (listRuns w.runs id 0) (w.of id) ∧
      ∀ limit, 0 < limit → listRuns w.runs id limit = (listRuns w.runs id 0).take limit.toNat := by
  have hkept := Run.exec_invariant RunsKept (fun s c s' h hg hs => runsKept_step h hg hs) calls {} w
    runsKept_empty hfits hrun
  have hlisted : listRuns w.runs id 0 =
      ((w.runs.withPrefix (runPrefix id)).map Prod.snd).reverse := by
    rw [listRuns_eq]
    rfl
  refine ⟨by rw [hlisted]; exact hkept.newest id hid, fun limit hlimit => ?_⟩
  rw [hlisted, listRuns_eq]
  dsimp only
  rw [if_pos hlimit]

/-- Two schedules, one with a run before the other's and one behind it. -/
def twoSchedules : List RunCall :=
  [⟨ascii "s1", { vmID := ascii "web", startedAt := 100, status := .success }, 500⟩,
    ⟨ascii "s2", { vmID := ascii "db", startedAt := 200, status := .error }, 500⟩,
    ⟨ascii "s1", { vmID := ascii "db", startedAt := 300, status := .success }, 500⟩]

/-- The runs of the first schedule. -/
theorem listRuns_twoSchedules : ∃ w, Run.exec RunBook.step {} twoSchedules = some w ∧
    NewestFirst (listRuns w.runs (ascii "s1") 0) (w.of (ascii "s1")) ∧
    (listRuns w.runs (ascii "s1") 0).map StoredRun.startedAt = [300, 100] := by
  have hrun : (Run.exec RunBook.step {} twoSchedules).any (fun w =>
      (listRuns w.runs (ascii "s1") 0).map StoredRun.startedAt = [300, 100]) = true := by
    decide +kernel
  obtain ⟨w, hw, hlisted⟩ := (Option.any_eq_true _ _).mp hrun
  exact ⟨w, hw, (listRuns_newest (by decide +kernel) hw (ascii "s1") (by decide)).1,
    of_decide_eq_true hlisted⟩

/-- One schedule on two machines at the same time: the second run takes the first one's place. -/
theorem listRuns_loses : ¬ ∀ (calls : List RunCall) (w : RunBook) (id : Bytes),
    Run.exec RunBook.step {} calls = some w →
      ∃ kept, (w.of id).Perm (listRuns w.runs id 0 ++ kept) ∧
        (listRuns w.runs id 0).length = min (w.of id).length runHistoryLimit := by
  intro h
  have hrun : (Run.exec RunBook.step {}
      [⟨ascii "s1", { vmID := ascii "web", startedAt := 100, status := .success }, 500⟩,
        ⟨ascii "s1", { vmID := ascii "db", startedAt := 100, status := .success }, 500⟩]).any
      (fun w => (listRuns w.runs (ascii "s1") 0).length = 1 ∧ (w.of (ascii "s1")).length = 2) =
        true := by decide +kernel
  obtain ⟨w, hw, hcounts⟩ := (Option.any_eq_true _ _).mp hrun
  obtain ⟨hlisted, hmine⟩ := of_decide_eq_true hcounts
  obtain ⟨-, -, hlen⟩ := h _ w (ascii "s1") hw
  rw [hlisted, hmine] at hlen
  exact absurd hlen (by decide)

end VMSmith
