/-
The missed fires are the first instants after the last tick.

The loop goes from one instant to the next, so what it has collected is every missed instant
before the one it is at.  It ends past `now`, at the cap, or where `Next` answers the zero time.
The zero time lies before everything: as a later answer it ends the loop, which is right if
nothing is missed behind the horizon; as the first answer it is collected as an instant.
-/
import VMSmith.Scheduler.CatchUp
import Mathlib.Data.Set.Card

namespace VMSmith

open Go (trimSpace)

/-- What is documented of `Next`: the least instant of the schedule after `t`, or zero if it
finds none up to the horizon of `t`. -/
structure CronNext (instants : Set Nat) (horizon next : Nat → Nat) : Prop where
  after : ∀ t, next t ≠ 0 → next t ∈ instants ∧ t < next t
  least : ∀ t, next t ≠ 0 → ∀ u ∈ instants, t < u → next t ≤ u
  none : ∀ t, next t = 0 → ∀ u ∈ instants, t < u → horizon t < u

/-- The instants of the schedule that were missed. -/
def missedSet (instants : Set Nat) (lastTick now : Nat) : Set Nat :=
  {t ∈ instants | lastTick < t ∧ t ≤ now}

/-- The earliest of the missed instants, `max` at most, in order. -/
structure Earliest (missed : Set Nat) (max : Nat) (out : List Nat) : Prop where
  ordered : out.Pairwise (· < ·)
  capped : out.length ≤ max
  sound : ∀ t ∈ out, t ∈ missed
  complete : ∀ t ∈ missed, t ∈ out ∨ (out.length = max ∧ ∀ u ∈ out, u < t)

/-! ### The loop -/

/-- The loop is at an instant and has collected every missed one before it. -/
structure AtInstant (instants : Set Nat) (lastTick now : Nat) (out : List Nat) (t : Nat) : Prop where
  instant : t ∈ instants
  late : lastTick < t
  ordered : out.Pairwise (· < ·)
  collected : ∀ u, u ∈ out ↔ u ∈ missedSet instants lastTick now ∧ u < t

section

variable {instants : Set Nat} {horizon next : Nat → Nat} {lastTick now t : Nat} {out : List Nat}
  {max : Int}

/-- How many missed instants lie before the one the loop is at. -/
theorem AtInstant.rank (h : AtInstant instants lastTick now out t) :
    {u ∈ missedSet instants lastTick now | u < t}.ncard = out.length := by
  have hset : {u ∈ missedSet instants lastTick now | u < t} = (out.toFinset : Set Nat) := by
    ext u
    rw [List.coe_toFinset, Set.mem_ofPred_eq]
    exact (h.collected u).symm
  have hnodup : out.Nodup := h.ordered.imp ne_of_lt
  rw [hset, Set.ncard_coe_finset, List.toFinset_card_of_nodup hnodup]

/-- With more instants before it the rank does not go down. -/
theorem rank_mono {t r : Nat} (h : t ≤ r) :
    {u ∈ missedSet instants lastTick now | u < t}.ncard ≤
      {u ∈ missedSet instants lastTick now | u < r}.ncard := by
  refine Set.ncard_le_ncard (fun u hu => ⟨hu.1, hu.2.trans_le h⟩) ?_
  exact (Set.finite_le_nat now).subset fun u hu => hu.1.2.2

/-- The next instant: it is collected now, and nothing lies between the two. -/
theorem AtInstant.step (hcron : CronNext instants horizon next)
    (h : AtInstant instants lastTick now out t) (hle : t ≤ now) (hnext : t < next t) :
    AtInstant instants lastTick now (out ++ [t]) (next t) := by
  have hne : next t ≠ 0 := by omega
  have hlate := h.late
  constructor
  · exact (hcron.after t hne).1
  · omega
  · rw [List.pairwise_append]
    refine ⟨h.ordered, List.pairwise_singleton _ _, fun u hu v hv => ?_⟩
    rw [List.mem_singleton.mp hv]
    exact ((h.collected u).mp hu).2
  · intro u
    rw [List.mem_append, List.mem_singleton, h.collected u]
    constructor
    · rintro (⟨hmissed, hlt⟩ | rfl)
      · exact ⟨hmissed, hlt.trans hnext⟩
      · exact ⟨⟨h.instant, h.late, hle⟩, hnext⟩
    · rintro ⟨hmissed, hlt⟩
      rcases Nat.lt_trichotomy u t with hbefore | rfl | hafter
      · exact .inl ⟨hmissed, hbefore⟩
      · exact .inr rfl
      · exact absurd (hcron.least t hne u hmissed.1 hafter) (by omega)

/-- `Next` answers zero at an early instant only if nothing is missed behind it.  Early is an
instant that is followed by a call of `Next`: fewer than `max - 1` missed ones are before it. -/
def NothingBehind (instants : Set Nat) (next : Nat → Nat) (lastTick now : Nat) (max : Int)
    (start : Nat) : Prop :=
  ∀ r ∈ missedSet instants lastTick now, start ≤ r →
    {u ∈ missedSet instants lastTick now | u < r}.ncard + 1 < max → next r = 0 →
      ∀ u ∈ missedSet instants lastTick now, u ≤ r

/-- From an instant on the loop finds the earliest missed instants exactly if nothing is missed
where `Next` ends it. -/
theorem missedLoop_iff (hcron : CronNext instants horizon next) (hmax : 0 < max)
    (h : AtInstant instants lastTick now out t) (hroom : out.length < max) :
    Earliest (missedSet instants lastTick now) max.toNat (missedLoop next now max out t) ↔
      NothingBehind instants next lastTick now max t := by
  induction out, t using missedLoop.induct next now max with
  | case1 out t hpast =>
      unfold missedLoop
      rw [if_pos hpast]
      refine iff_of_true ⟨h.ordered, by omega, fun u hu => ((h.collected u).mp hu).1, fun u hu => ?_⟩
        fun r hr hle => ?_
      · exact .inl ((h.collected u).mpr ⟨hu, hu.2.2.trans_lt hpast⟩)
      · exact absurd hr.2.2 (by omega)
  | case2 out t hpast hfull =>
      have hlen : (out ++ [t]).length = out.length + 1 := by simp
      have hmissed : t ∈ missedSet instants lastTick now := ⟨h.instant, h.late, not_lt.mp hpast⟩
      have hbefore : ∀ u ∈ out, u < t := fun u hu => ((h.collected u).mp hu).2
      unfold missedLoop
      rw [if_neg hpast, if_pos hfull]
      refine iff_of_true ⟨?_, by omega, ?_, ?_⟩ fun r hr hle hearly => ?_
      · rw [List.pairwise_append]
        refine ⟨h.ordered, List.pairwise_singleton _ _, fun u hu v hv => ?_⟩
        rw [List.mem_singleton.mp hv]
        exact hbefore u hu
      · intro u hu
        rcases List.mem_append.mp hu with hu | hu
        · exact ((h.collected u).mp hu).1
        · rwa [List.mem_singleton.mp hu]
      · intro u hu
        rcases Nat.lt_trichotomy u t with hlt | rfl | hgt
        · exact .inl (List.mem_append_left _ ((h.collected u).mpr ⟨hu, hlt⟩))
        · exact .inl (List.mem_append_right _ List.mem_cons_self)
        · refine .inr ⟨by omega, fun v hv => ?_⟩
          rcases List.mem_append.mp hv with hv | hv
          · exact (hbefore v hv).trans hgt
          · rwa [List.mem_singleton.mp hv]
      · -- the cap is reached at `t`, so no instant from there on is early
        have hrank : {u ∈ missedSet instants lastTick now | u < t}.ncard ≤ _ := rank_mono hle
        rw [h.rank] at hrank
        omega
  | case3 out t hpast hfull hend =>
      have hlen : (out ++ [t]).length = out.length + 1 := by simp
      have hmissed : t ∈ missedSet instants lastTick now := ⟨h.instant, h.late, not_lt.mp hpast⟩
      have hzero : next t = 0 := by
        by_contra hne
        exact absurd (hcron.after t hne).2 (not_lt.mpr hend)
      have hbefore : ∀ u ∈ out, u < t := fun u hu => ((h.collected u).mp hu).2
      unfold missedLoop
      rw [if_neg hpast, if_neg hfull, if_pos hend]
      constructor
      · intro hearliest
        have hlast : ∀ u ∈ missedSet instants lastTick now, u ≤ t := by
          intro u hu
          rcases hearliest.complete u hu with hin | ⟨hcap, -⟩
          · rcases List.mem_append.mp hin with hin | hin
            · exact (hbefore u hin).le
            · exact (List.mem_singleton.mp hin).le
          · omega
        exact fun r _ hle _ _ u hu => (hlast u hu).trans hle
      · intro hnothing
        have hlast := hnothing t hmissed le_rfl (by rw [h.rank]; omega) hzero
        refine ⟨?_, by omega, ?_, ?_⟩
        · rw [List.pairwise_append]
          refine ⟨h.ordered, List.pairwise_singleton _ _, fun u hu v hv => ?_⟩
          rw [List.mem_singleton.mp hv]
          exact hbefore u hu
        · intro u hu
          rcases List.mem_append.mp hu with hu | hu
          · exact ((h.collected u).mp hu).1
          · rwa [List.mem_singleton.mp hu]
        · intro u hu
          left
          rcases Nat.lt_or_eq_of_le (hlast u hu) with hlt | rfl
          · exact List.mem_append_left _ ((h.collected u).mpr ⟨hu, hlt⟩)
          · exact List.mem_append_right _ List.mem_cons_self
  | case4 out t hpast hfull hgo ih =>
      have hlen : (out ++ [t]).length = out.length + 1 := by simp
      have hne : next t ≠ 0 := by omega
      unfold missedLoop
      rw [if_neg hpast, if_neg hfull, if_neg hgo, ih (h.step hcron (not_lt.mp hpast) (not_le.mp hgo)) (by omega)]
      constructor
      · intro hnothing r hr hle hearly hzero
        have hlater : next t ≤ r := by
          rcases Nat.lt_or_eq_of_le hle with hlt | rfl
          · exact hcron.least t hne r hr.1 hlt
          · exact absurd hzero hne
        exact hnothing r hr hlater hearly hzero
      · intro hnothing r hr hle
        exact hnothing r hr (by omega)

/-- What the loop is at goes into its result, unless it is past `now`. -/
theorem mem_missedLoop (hle : t ≤ now) : t ∈ missedLoop next now max out t := by
  have hkeeps : ∀ out t, out <+: missedLoop next now max out t := by
    intro out t
    induction out, t using missedLoop.induct next now max with
    | case1 out t hpast =>
        unfold missedLoop
        rw [if_pos hpast]
    | case2 out t hpast hfull =>
        unfold missedLoop
        rw [if_neg hpast, if_pos hfull]
        exact List.prefix_append _ _
    | case3 out t hpast hfull hend =>
        unfold missedLoop
        rw [if_neg hpast, if_neg hfull, if_pos hend]
        exact List.prefix_append _ _
    | case4 out t hpast hfull hgo ih =>
        unfold missedLoop
        rw [if_neg hpast, if_neg hfull, if_neg hgo]
        exact (List.prefix_append _ _).trans ih
  unfold missedLoop
  rw [if_neg (not_lt.mpr hle)]
  split_ifs
  · simp
  · simp
  · exact (hkeeps (out ++ [t]) (next t)).subset (by simp)

end

/-! ### Handing over -/

/-- The schedule is enabled, its policy is to replay one fire, and `Next` of its cron schedule
is `next`. -/
structure ReplaysOnce (lib : CronLib) (next : Nat → Nat) (s : Schedule) : Prop where
  enabled : s.enabled = true
  policy : s.catchUpPolicy = .runOnce
  parsed : lib.parseError (trimSpace s.cronSpec) = none
  located : ∃ tz, lib.location s.timezone = some tz ∧ lib.next (trimSpace s.cronSpec) tz = next

section

variable {lib : CronLib} {maxCatchUp : Int} {lastTick now : Nat} {s : Schedule}

theorem firesOf_append (id : String) (as bs : List CatchUpAct) :
    firesOf id (as ++ bs) = firesOf id as ++ firesOf id bs :=
  List.filterMap_append

/-- A schedule that replays once hands over the last missed fire. -/
theorem firesOf_catchUp {next : Nat → Nat} (h : ReplaysOnce lib next s) :
    firesOf s.id (catchUp lib maxCatchUp lastTick now s) =
      (missedFires next lastTick now maxCatchUp).getLast?.toList := by
  obtain ⟨tz, htz, hnext⟩ := h.located
  unfold catchUp
  rw [if_neg (by simp [h.enabled]), if_neg (by simp [h.policy]), h.parsed, htz]
  dsimp only
  rw [hnext, h.policy]
  cases (missedFires next lastTick now maxCatchUp).getLast? with
  | none => rfl
  | some last => simp [firesOf]

/-- It hands over no fire of another. -/
theorem firesOf_catchUp_other {id : String} (h : s.id ≠ id) :
    firesOf id (catchUp lib maxCatchUp lastTick now s) = [] := by
  have hfires : ∀ times : List Nat, firesOf id (times.map (.fire s.id)) = [] := by
    intro times
    unfold firesOf
    rw [List.filterMap_map, List.filterMap_eq_nil_iff]
    intro t _
    simp [h]
  unfold catchUp
  by_cases hon : s.enabled = true
  · rw [if_neg (not_not.mpr hon)]
    by_cases hskip : s.catchUpPolicy = .skip
    · rw [if_pos hskip]
      rfl
    · rw [if_neg hskip]
      cases lib.parseError (trimSpace s.cronSpec) with
      | some _ => rfl
      | none =>
          cases lib.location s.timezone with
          | none => rfl
          | some tz =>
              dsimp only
              generalize missedFires (lib.next (trimSpace s.cronSpec) tz) lastTick now maxCatchUp =
                missed
              cases missed.getLast? with
              | none => rfl
              | some last =>
                  cases s.catchUpPolicy with
                  | skip => rfl
                  | runOnce => simpa [firesOf] using h
                  | runAll => simpa [firesOf] using hfires missed
  · rw [if_pos hon]
    rfl

/-- Among the schedules, each with its own ID, it is the schedule's own turn that counts. -/
theorem firesOf_flatMap {scheds : List Schedule} (hmem : s ∈ scheds)
    (hids : (scheds.map Schedule.id).Nodup) :
    firesOf s.id (scheds.flatMap (catchUp lib maxCatchUp lastTick now)) =
      firesOf s.id (catchUp lib maxCatchUp lastTick now s) := by
  have hothers : ∀ others : List Schedule, (∀ o ∈ others, o.id ≠ s.id) →
      firesOf s.id (others.flatMap (catchUp lib maxCatchUp lastTick now)) = [] := by
    intro others h
    induction others with
    | nil => rfl
    | cons o others ih =>
        rw [List.flatMap_cons, firesOf_append, firesOf_catchUp_other (h o List.mem_cons_self),
          ih fun o' ho' => h o' (List.mem_cons_of_mem _ ho')]
        rfl
  induction scheds with
  | nil => exact absurd hmem List.not_mem_nil
  | cons first rest ih =>
      rw [List.map_cons, List.nodup_cons] at hids
      rw [List.flatMap_cons, firesOf_append]
      rcases List.mem_cons.mp hmem with rfl | hmem
      · rw [hothers rest, List.append_nil]
        exact fun o ho heq => hids.1 (heq ▸ List.mem_map_of_mem ho)
      · have hne : first.id ≠ s.id := fun heq => hids.1 (heq ▸ List.mem_map_of_mem hmem)
        rw [firesOf_catchUp_other hne, List.nil_append]
        exact ih hmem hids.2

end

/-! ### Catching up -/

/-- One fire is handed over, of a missed instant, if one was missed, and none otherwise. -/
structure HandsOver (missed : Set Nat) (handed : List Nat) : Prop where
  one : missed.Nonempty → ∃ t ∈ missed, handed = [t]
  none : ¬ missed.Nonempty → handed = []

/-- The list is the earliest missed instants, and a schedule that replays once hands over one
fire of them, if there are any. -/
structure CatchesUp (instants : Set Nat) (next : Nat → Nat) (lastTick now : Nat) (max : Int) :
    Prop where
  earliest : Earliest (missedSet instants lastTick now) max.toNat (missedFires next lastTick now max)
  handsOver : ∀ (lib : CronLib) (scheds : List Schedule) (s : Schedule), ReplaysOnce lib next s →
    s ∈ scheds → (scheds.map Schedule.id).Nodup →
    HandsOver (missedSet instants lastTick now) (firesOf s.id (runCatchUp lib max scheds lastTick now))

/-- The schedule answers: there is an instant after the last tick within the horizon, and none is
missed behind an early one where the horizon ends.  A last tick at the zero time is none, and
then nothing may have been missed. -/
def AnswersAll (instants : Set Nat) (next : Nat → Nat) (lastTick now : Nat) (max : Int) : Prop :=
  if lastTick = 0 then missedSet instants lastTick now = ∅
  else next lastTick ≠ 0 ∧ NothingBehind instants next lastTick now max lastTick

theorem missedFires_iff {instants : Set Nat} {horizon next : Nat → Nat} {lastTick now : Nat}
    {max : Int} (hcron : CronNext instants horizon next) (hlast : lastTick < now) (hmax : 0 < max) :
    Earliest (missedSet instants lastTick now) max.toNat (missedFires next lastTick now max) ↔
      AnswersAll instants next lastTick now max := by
  unfold missedFires AnswersAll
  by_cases hzero : lastTick = 0
  · rw [if_pos (.inl hzero), if_pos hzero]
    constructor
    · intro h
      rw [Set.eq_empty_iff_forall_notMem]
      intro t ht
      rcases h.complete t ht with hin | ⟨hcap, -⟩
      · exact absurd hin List.not_mem_nil
      · rw [List.length_nil] at hcap
        omega
    · intro hempty
      rw [hempty]
      exact ⟨List.Pairwise.nil, Nat.zero_le _, fun t ht => absurd ht List.not_mem_nil,
        fun t ht => absurd ht (Set.notMem_empty t)⟩
  · rw [if_neg (by omega), if_neg hzero]
    by_cases hnone : next lastTick = 0
    · -- the zero time is collected as an instant
      rw [hnone]
      refine iff_of_false (fun h => ?_) fun h => h.1 rfl
      have hbogus := h.sound 0 (mem_missedLoop (Nat.zero_le now))
      exact absurd hbogus.2.1 (Nat.not_lt_zero lastTick)
    · obtain ⟨hinstant, hlate⟩ := hcron.after lastTick hnone
      have hstart : AtInstant instants lastTick now [] (next lastTick) := by
        refine ⟨hinstant, hlate, List.Pairwise.nil, fun u => ?_⟩
        refine iff_of_false List.not_mem_nil ?_
        rintro ⟨hmissed, hlt⟩
        exact absurd (hcron.least lastTick hnone u hmissed.1 hmissed.2.1) (not_le.mpr hlt)
      rw [missedLoop_iff hcron hmax hstart (by simpa using hmax)]
      constructor
      · intro h
        exact ⟨hnone, fun r hr _ => h r hr (hcron.least lastTick hnone r hr.1 hr.2.1)⟩
      · rintro ⟨-, h⟩ r hr hle
        exact h r hr (hlate.le.trans hle)

/--
The missed fires are the earliest missed instants, and what is handed over is one of them, exactly
if `Next` answers after the last tick and after every early instant that is not the last.
-/
theorem catchUp_exact {instants : Set Nat} {horizon next : Nat → Nat}
    (hcron : CronNext instants horizon next) {lastTick now : Nat} (hlast : lastTick < now)
    {max : Int} (hmax : 0 < max) :
    CatchesUp instants next lastTick now max ↔ AnswersAll instants next lastTick now max := by
  rw [← missedFires_iff hcron hlast hmax]
  refine ⟨CatchesUp.earliest, fun h => ⟨h, fun lib scheds s honce hmem hids => ?_⟩⟩
  have hhanded : firesOf s.id (runCatchUp lib max scheds lastTick now) =
      (missedFires next lastTick now max).getLast?.toList := by
    unfold runCatchUp
    by_cases hzero : lastTick = 0
    · rw [if_pos hzero]
      unfold missedFires
      rw [if_pos (.inl hzero)]
      rfl
    · rw [if_neg hzero, firesOf_flatMap hmem hids, firesOf_catchUp honce]
  rw [hhanded]
  cases hout : (missedFires next lastTick now max).getLast? with
  | none =>
      have hnil := List.getLast?_eq_none_iff.mp hout
      refine ⟨fun ⟨t, ht⟩ => ?_, fun _ => rfl⟩
      rcases h.complete t ht with hin | ⟨hcap, -⟩
      · rw [hnil] at hin
        exact absurd hin List.not_mem_nil
      · rw [hnil, List.length_nil] at hcap
        omega
  | some last =>
      have hmissed := h.sound last (List.mem_of_getLast? hout)
      exact ⟨fun _ => ⟨last, hmissed, rfl⟩, fun hnone => absurd ⟨last, hmissed⟩ hnone⟩

/-- A schedule that is due every ten instants. -/
def everyTen : Nat → Nat := fun t => (t / 10 + 1) * 10

theorem everyTen_cron : CronNext {t | 0 < t ∧ 10 ∣ t} (fun t => t) everyTen := by
  constructor
  · intro t _
    refine ⟨⟨by unfold everyTen; omega, Dvd.intro_left _ rfl⟩, ?_⟩
    unfold everyTen
    omega
  · rintro t _ u ⟨-, k, rfl⟩ hlt
    unfold everyTen
    omega
  · intro t hzero
    unfold everyTen at hzero
    omega

/-- The first two of the instants after a hundred. -/
theorem catchUp_everyTen :
    (CatchesUp {t | 0 < t ∧ 10 ∣ t} everyTen 100 155 2 ↔
      AnswersAll {t | 0 < t ∧ 10 ∣ t} everyTen 100 155 2) ∧
      missedFires everyTen 100 155 2 = [110, 120] :=
  ⟨catchUp_exact everyTen_cron (by decide) (by decide),
    by simp [missedFires, missedLoop, everyTen]⟩

/-- A schedule for the thirtieth of February is never due, and it is caught up on at the zero
time. -/
theorem catchUp_never :
    ¬ ∀ (instants : Set Nat) (horizon next : Nat → Nat), CronNext instants horizon next →
      ∀ (lastTick now : Nat) (max : Int), lastTick < now → 0 < max →
        CatchesUp instants next lastTick now max := by
  intro h
  have hcron : CronNext ∅ (fun t => t + 5) (fun _ => 0) :=
    ⟨fun t hne => absurd rfl hne, fun t hne => absurd rfl hne, fun t _ u hu => absurd hu id⟩
  have hnever := (h ∅ _ _ hcron 100 200 100 (by decide) (by decide)).earliest
  have hzero := hnever.sound 0 (by simp [missedFires, missedLoop])
  exact absurd hzero.1 (Set.notMem_empty 0)

end VMSmith
