/-
Schedule records and registrations stay consistent.

Every writer of a schedule's record writes the whole of it: a request, and a fire at its
end.  A write goes over what has been written since the record was read; it brings back a
record deleted since; and a run is stored for a schedule that is gone.  The engine is told
in a step of its own, so two requests can tell it in the other order.  `Clear` is the
condition on a step that excludes these.

What the settings should be is `laid`: those at the start, with the patches laid over them
in the order they were written.
-/
import VMSmith.Proofs.ScheduleCalls

namespace VMSmith

open SchedCall (view)

/-- An earlier time, or none. -/
def notLater : Option Nat → Option Nat → Bool
  | none, _ => true
  | some _, none => false
  | some t, some u => t ≤ u

/-- The settings that a write makes of those there are. -/
def ScheduleWrite.lay : ScheduleWrite → ScheduleSettings → ScheduleSettings
  | patch req, s => req.apply s
  | fired, s => s

/-- The settings of a schedule after its patches, latest first. -/
def laid (id : String) : List ScheduleMark → ScheduleSettings → ScheduleSettings
  | [], s => s
  | .wrote id' why _ :: marks, s => if id' = id then why.lay (laid id marks s) else laid id marks s
  | .deleted _ :: marks, s => laid id marks s

/-- The registration that the store calls for. -/
def SchedWorld.calledFor (lib : CronLib) (w : SchedWorld) (id : String) : Option CronEntry :=
  (w.schedules.get? id).bind fun s => lib.entry s.settings

namespace SchedSys

/-- Nothing was changed since but what this write sets, and the record is still there. -/
def fresh (w : SchedWorld) (sched : Schedule) (why : ScheduleWrite) : Bool :=
  (w.schedules.get? sched.id).any fun cur =>
    why.lay cur.settings = sched.settings && notLater cur.lastFiredAt sched.lastFiredAt

/-- Another call has written or deleted the schedule and is yet to tell the engine. -/
def awaited (s : SchedSys) (i : Nat) (id : String) : Bool :=
  (List.range s.threads.length).any fun j => j ≠ i && (s.threads[j]?).any fun u =>
    (view u).unsettled = some id

/-- Call `i` may have this command answered so. -/
def admits (lib : CronLib) (s : SchedSys) (i : Nat) (x : SchedChoice) : SchedCmd → Bool
  | .putSchedule sched why => x.fail.isSome || fresh s.world sched why
  | .appendRun id _ => x.fail.isSome || (s.world.schedules.get? id).isSome
  | .register sched => s.world.calledFor lib sched.id = lib.entry sched.settings || awaited s i sched.id
  | _ => true

def clear (lib : CronLib) (s : SchedSys) (i : Nat) (t : SchedCall) (x : SchedChoice) : Bool :=
  match t.prog with
  | .call c _ => admits lib s i x c
  | _ => true

/-- The condition on a step; the engine is not restarted. -/
def Clear (lib : CronLib) (s : SchedSys) : SchedLabel → Prop
  | .step i x => ∀ t ∈ s.threads[i]?, clear lib s i t x = true
  | .restart _ => False
  | _ => True

instance (lib : CronLib) : ∀ (s : SchedSys) (l : SchedLabel), Decidable (Clear lib s l)
  | _, .step _ _ => inferInstanceAs (Decidable (∀ _ ∈ _, _))
  | _, .call _ => .isTrue trivial
  | _, .env _ => .isTrue trivial
  | _, .restart _ => .isFalse id

/-- What one command of a call does to records, runs and entries, and to its account. -/
inductive Effect (lib : CronLib) (s : SchedSys) (i : Nat) (op : ScheduleOp) (w' : SchedWorld)
    (v v' : ScheduleView) : Prop
  | quiet (hs : w'.schedules = s.world.schedules) (hr : w'.runs = s.world.runs)
      (he : w'.entries = s.world.entries) (hh : w'.history = s.world.history)
      (hread : v'.read = v.read) (hwrote : v'.wrote = v.wrote) (hdropped : v'.dropped = v.dropped)
      (hunsettled : v'.unsettled = v.unsettled)
  | fetched (id : String) (sched : Schedule) (hw : w' = s.world)
      (hstored : s.world.schedules.get? id = some sched) (hv : v' = { v with read := some (id, sched) })
  | patched (sched cur old : Schedule) (req : ScheduleUpdateSpec) (hop : op = .update op.target req)
      (hread : v.read = some (op.target, old)) (hid : sched.id = old.id)
      (hunsettled : v.unsettled = none)
      (hvalid : (req.cronSpec = none ∧ req.timezone = none) ∨
        lib.validateSpec sched.cronSpec sched.timezone = .ok ())
      (hcur : s.world.schedules.get? sched.id = some cur)
      (hsettings : sched.settings = req.apply cur.settings)
      (hlast : notLater cur.lastFiredAt sched.lastFiredAt = true)
      (hw : w' = { s.world with
        schedules := s.world.schedules.put sched.id sched
        history := .wrote sched.id (.patch req) sched.lastFiredAt :: s.world.history })
      (hv : v' = { v with wrote := true, unsettled := some sched.id })
  | fired (sched cur : Schedule) (hcur : s.world.schedules.get? sched.id = some cur)
      (hsettings : sched.settings = cur.settings)
      (hlast : notLater cur.lastFiredAt sched.lastFiredAt = true)
      (hw : w' = { s.world with
        schedules := s.world.schedules.put sched.id sched
        history := .wrote sched.id .fired sched.lastFiredAt :: s.world.history }) (hv : v' = v)
  | deleted (id : String) (hop : op = .delete id) (hunsettled : v.unsettled = none)
      (hw : w' = { s.world with
        schedules := s.world.schedules.erase id
        runs := s.world.runs.erase id
        history := .deleted id :: s.world.history })
      (hv : v' = { v with dropped := true, unsettled := some id })
  | ran (id : String) (run : ScheduleRun) (hstored : (s.world.schedules.get? id).isSome)
      (hw : w' = s.world.appendRun id run) (hv : v' = v)
  | registered (sched : Schedule) (hunsettled : v.unsettled = some sched.id)
      (hwhy : s.world.calledFor lib sched.id = lib.entry sched.settings ∨
        ∃ (j : Nat) (u : SchedCall), s.threads[j]? = some u ∧ j ≠ i ∧
          (view u).unsettled = some sched.id)
      (hw : w' = s.world.register lib sched) (hv : v' = { v with unsettled := none })
  | unregistered (id : String) (hunsettled : v.unsettled = some id) (hdropped : v.dropped = true)
      (hop : op = .delete id) (hw : w' = s.world.unregister id) (hv : v' = { v with unsettled := none })

variable {lib : CronLib} {stored : StoredSchedules lib} {s s' : SchedSys} {i : Nat} {t : SchedCall}
  {x : SchedChoice} {w w' : SchedWorld}

theorem awaited_iff {id : String} : awaited s i id = true ↔
    ∃ (j : Nat) (u : SchedCall), s.threads[j]? = some u ∧ j ≠ i ∧ (view u).unsettled = some id := by
  simp only [awaited, List.any_eq_true, List.mem_range, Bool.and_eq_true, decide_eq_true_eq,
    Option.any_eq_true]
  constructor
  · rintro ⟨j, -, hji, u, hu, h⟩
    exact ⟨j, u, hu, hji, h⟩
  · rintro ⟨j, u, hu, hji, h⟩
    exact ⟨j, (List.getElem?_eq_some_iff.mp hu).1, hji, u, hu, h⟩

theorem effect {c : SchedCmd} {r : c.Resp} (hok : t.op.ok lib (view t) c)
    (hclear : admits lib s i x c = true) (hexec : SchedWorld.exec lib c x s.world = some (r, w')) :
    Effect lib s i t.op w' (view t) ((view t).add c r) := by
  cases c with
  | getSchedule id =>
      rcases fallible_eq hexec with ⟨e, rfl, rfl⟩ | ⟨sched, -, hact, rfl⟩
      · exact .quiet rfl rfl rfl rfl rfl rfl rfl rfl
      · split at hact
        · next hstored =>
            simp only [Except.ok.injEq, Prod.mk.injEq] at hact
            obtain ⟨rfl, rfl⟩ := hact
            exact .fetched id _ rfl hstored rfl
        · simp at hact
  | putSchedule sched why =>
      change Except Err Unit at r
      rcases fallible_ok hexec with ⟨-, ⟨e, rfl⟩, rfl⟩ | ⟨hx, rfl, rfl⟩
      · cases why <;> exact .quiet rfl rfl rfl rfl rfl rfl rfl rfl
      · rw [admits, hx, Option.isSome_none, Bool.false_or, fresh, Option.any_eq_true] at hclear
        obtain ⟨cur, hcur, hfresh⟩ := hclear
        rw [Bool.and_eq_true, decide_eq_true_eq] at hfresh
        cases why with
        | patch req =>
            obtain ⟨hop, hunsettled, ⟨old, hread, hid⟩, hvalid⟩ := hok
            exact .patched sched cur old req hop hread hid hunsettled hvalid hcur hfresh.1.symm
              hfresh.2 rfl rfl
        | fired => exact .fired sched cur hcur hfresh.1.symm hfresh.2 rfl rfl
  | deleteSchedule id =>
      change Except Err Unit at r
      rcases fallible_ok hexec with ⟨-, ⟨e, rfl⟩, rfl⟩ | ⟨-, rfl, rfl⟩
      · exact .quiet rfl rfl rfl rfl rfl rfl rfl rfl
      · exact .deleted id hok.1 hok.2 rfl rfl
  | appendRun id run =>
      change Except Err Unit at r
      rcases fallible_ok hexec with ⟨-, ⟨e, rfl⟩, rfl⟩ | ⟨hx, rfl, rfl⟩
      · exact .quiet rfl rfl rfl rfl rfl rfl rfl rfl
      · rw [admits, hx, Option.isSome_none, Bool.false_or] at hclear
        exact .ran id run hclear rfl rfl
  | register sched =>
      obtain ⟨rfl, rfl⟩ := Prod.mk.injEq _ _ _ _ ▸ Option.some.inj hexec
      rw [admits, Bool.or_eq_true, decide_eq_true_eq, awaited_iff] at hclear
      exact .registered sched hok hclear rfl rfl
  | unregister id =>
      obtain ⟨rfl, rfl⟩ := Prod.mk.injEq _ _ _ _ ▸ Option.some.inj hexec
      exact .unregistered id hok.1 hok.2.1 hok.2.2 rfl rfl
  | semaphore id =>
      simp only [SchedWorld.exec] at hexec
      split at hexec
      · obtain ⟨rfl, rfl⟩ := Prod.mk.injEq _ _ _ _ ▸ Option.some.inj hexec
        exact .quiet rfl rfl rfl rfl rfl rfl rfl rfl
      · obtain ⟨rfl, rfl⟩ := Prod.mk.injEq _ _ _ _ ▸ Option.some.inj hexec
        exact .quiet rfl rfl rfl rfl rfl rfl rfl rfl
  | acquire id sem =>
      simp only [SchedWorld.exec] at hexec
      split at hexec
      · simp at hexec
      · split_ifs at hexec
        · obtain ⟨rfl, rfl⟩ := Prod.mk.injEq _ _ _ _ ▸ Option.some.inj hexec
          exact .quiet rfl rfl rfl rfl rfl rfl rfl rfl
        · obtain ⟨rfl, rfl⟩ := Prod.mk.injEq _ _ _ _ ▸ Option.some.inj hexec
          exact .quiet rfl rfl rfl rfl rfl rfl rfl rfl
  | release sem =>
      simp only [SchedWorld.exec] at hexec
      split at hexec
      · simp at hexec
      · obtain ⟨rfl, rfl⟩ := Prod.mk.injEq _ _ _ _ ▸ Option.some.inj hexec
        exact .quiet rfl rfl rfl rfl rfl rfl rfl rfl
  | listVMs =>
      rcases fallible_ok hexec with ⟨-, ⟨e, rfl⟩, rfl⟩ | ⟨-, rfl, rfl⟩
      · exact .quiet rfl rfl rfl rfl rfl rfl rfl rfl
      · exact .quiet rfl rfl rfl rfl rfl rfl rfl rfl
  | vmExists id | act action vmID scheduledTime | now | publish evt =>
      obtain ⟨rfl, rfl⟩ := Prod.mk.injEq _ _ _ _ ▸ Option.some.inj hexec
      exact .quiet rfl rfl rfl rfl rfl rfl rfl rfl

/-! ### Records and runs -/

theorem notLater_refl (t : Option Nat) : notLater t t = true := by
  cases t <;> simp [notLater]

theorem notLater_trans {t u v : Option Nat} (htu : notLater t u = true) (huv : notLater u v = true) :
    notLater t v = true := by
  cases t with
  | none => rfl
  | some t =>
      cases u with
      | none => simp [notLater] at htu
      | some u =>
          cases v with
          | none => simp [notLater] at huv
          | some v =>
              rw [notLater, decide_eq_true_eq] at htu huv ⊢
              exact htu.trans huv

/-- What holds of the store at any time. -/
structure Settled (lib : CronLib) (stored : StoredSchedules lib) (schedules : Bucket String Schedule)
    (runs : Bucket String (Bucket Nat ScheduleRun)) (history : List ScheduleMark) : Prop where
  keyed : ∀ id sched, schedules.get? id = some sched → sched.id = id
  valid : ∀ id sched, schedules.get? id = some sched →
    lib.validateSpec sched.cronSpec sched.timezone = .ok ()
  settings : ∀ id sched, schedules.get? id = some sched → ∃ first,
    stored.schedules.get? id = some first ∧ sched.settings = laid id history first.settings
  kept : ∀ id first, stored.schedules.get? id = some first → .deleted id ∉ history →
    (schedules.get? id).isSome
  gone : ∀ id, .deleted id ∈ history → schedules.get? id = none
  clean : ∀ id, .deleted id ∈ history → runs.get? id = none
  fired : ∀ id sched, schedules.get? id = some sched →
    (∀ why at', .wrote id why at' ∈ history → notLater at' sched.lastFiredAt = true) ∧
      ∀ first, stored.schedules.get? id = some first →
        notLater first.lastFiredAt sched.lastFiredAt = true

theorem settled_init : Settled lib stored stored.schedules stored.runs [] where
  keyed := stored.keyed
  valid := stored.valid
  settings := fun _ sched h => ⟨sched, h, rfl⟩
  kept := fun _ _ h _ => Option.isSome_iff_exists.mpr ⟨_, h⟩
  gone := fun _ h => absurd h List.not_mem_nil
  clean := fun _ h => absurd h List.not_mem_nil
  fired := by
    intro id sched h
    refine ⟨fun _ _ hm => absurd hm List.not_mem_nil, fun first hfirst => ?_⟩
    rw [h] at hfirst
    obtain rfl := Option.some.inj hfirst
    exact notLater_refl _

variable {schedules : Bucket String Schedule} {runs : Bucket String (Bucket Nat ScheduleRun)}
  {history : List ScheduleMark}

/-- A write over what its writer knows of. -/
theorem Settled.put (h : Settled lib stored schedules runs history) {sched cur : Schedule}
    {why : ScheduleWrite} (hcur : schedules.get? sched.id = some cur)
    (hsettings : sched.settings = why.lay cur.settings)
    (hlast : notLater cur.lastFiredAt sched.lastFiredAt = true)
    (hvalid : lib.validateSpec sched.cronSpec sched.timezone = .ok ()) :
    Settled lib stored (schedules.put sched.id sched) runs
      (.wrote sched.id why sched.lastFiredAt :: history) where
  keyed := by
    intro id s hs
    rcases Bucket.mem_put hs with ⟨rfl, rfl⟩ | ⟨-, hold⟩
    · rfl
    · exact h.keyed id s hold
  valid := by
    intro id s hs
    rcases Bucket.mem_put hs with ⟨rfl, rfl⟩ | ⟨-, hold⟩
    · exact hvalid
    · exact h.valid id s hold
  settings := by
    intro id s hs
    rcases Bucket.mem_put hs with ⟨rfl, rfl⟩ | ⟨hne, hold⟩
    · obtain ⟨first, hfirst, hcurs⟩ := h.settings _ cur hcur
      refine ⟨first, hfirst, ?_⟩
      rw [laid, if_pos rfl, ← hcurs, hsettings]
    · obtain ⟨first, hfirst, hs'⟩ := h.settings id s hold
      exact ⟨first, hfirst, by rw [laid, if_neg (Ne.symm hne), hs']⟩
  kept := by
    intro id first hfirst hdel
    rw [Bucket.get?_put]
    split_ifs
    · rfl
    · exact h.kept id first hfirst fun hmem => hdel (List.mem_cons_of_mem _ hmem)
  gone := by
    intro id hdel
    have hdel : .deleted id ∈ history := by simpa using hdel
    have hne : id ≠ sched.id := by
      rintro rfl
      rw [h.gone _ hdel] at hcur
      simp at hcur
    rw [Bucket.get?_put_ne _ _ hne, h.gone id hdel]
  clean := fun id hdel => h.clean id (by simpa using hdel)
  fired := by
    intro id s hs
    rcases Bucket.mem_put hs with ⟨rfl, rfl⟩ | ⟨hne, hold⟩
    · obtain ⟨hmarks, hfirst⟩ := h.fired _ cur hcur
      refine ⟨fun why' at' hmem => ?_, fun first hf => notLater_trans (hfirst first hf) hlast⟩
      rcases List.mem_cons.mp hmem with heq | hmem
      · rw [ScheduleMark.wrote.injEq] at heq
        rw [heq.2.2]
        exact notLater_refl _
      · exact notLater_trans (hmarks why' at' hmem) hlast
    · obtain ⟨hmarks, hfirst⟩ := h.fired id s hold
      refine ⟨fun why' at' hmem => ?_, hfirst⟩
      rcases List.mem_cons.mp hmem with heq | hmem
      · rw [ScheduleMark.wrote.injEq] at heq
        exact absurd heq.1 hne
      · exact hmarks why' at' hmem

theorem Settled.delete (h : Settled lib stored schedules runs history) (id : String) :
    Settled lib stored (schedules.erase id) (runs.erase id) (.deleted id :: history) where
  keyed := fun id' s hs => h.keyed id' s (Bucket.mem_erase.mp hs).2
  valid := fun id' s hs => h.valid id' s (Bucket.mem_erase.mp hs).2
  settings := fun id' s hs => h.settings id' s (Bucket.mem_erase.mp hs).2
  kept := by
    intro id' first hfirst hdel
    rw [List.mem_cons, not_or] at hdel
    have hne : id' ≠ id := fun heq => hdel.1 (heq ▸ rfl)
    rw [Bucket.get?_erase_ne _ hne]
    exact h.kept id' first hfirst hdel.2
  gone := by
    intro id' hdel
    by_cases hid : id' = id
    · rw [hid, Bucket.get?_erase_self]
    · rw [Bucket.get?_erase_ne _ hid]
      exact h.gone id' ((List.mem_cons.mp hdel).resolve_left fun heq => hid (by simpa using heq))
  clean := by
    intro id' hdel
    by_cases hid : id' = id
    · rw [hid, Bucket.get?_erase_self]
    · rw [Bucket.get?_erase_ne _ hid]
      exact h.clean id' ((List.mem_cons.mp hdel).resolve_left fun heq => hid (by simpa using heq))
  fired := by
    intro id' s hs
    obtain ⟨hmarks, hfirst⟩ := h.fired id' s (Bucket.mem_erase.mp hs).2
    refine ⟨fun why at' hmem => hmarks why at' ?_, hfirst⟩
    simpa using hmem

theorem Settled.ran (h : Settled lib stored schedules runs history) {id : String}
    (hstored : (schedules.get? id).isSome) (kept : Bucket Nat ScheduleRun) :
    Settled lib stored schedules (runs.put id kept) history := by
  refine { h with clean := fun id' hdel => ?_ }
  have hne : id' ≠ id := by
    rintro rfl
    rw [h.gone _ hdel] at hstored
    simp at hstored
  rw [Bucket.get?_put_ne _ _ hne]
  exact h.clean id' hdel

@[simp] theorem register_schedules (sched : Schedule) :
    (w.register lib sched).schedules = w.schedules := by
  unfold SchedWorld.register
  cases lib.entry sched.settings <;> rfl

@[simp] theorem register_runs (sched : Schedule) : (w.register lib sched).runs = w.runs := by
  unfold SchedWorld.register
  cases lib.entry sched.settings <;> rfl

@[simp] theorem register_history (sched : Schedule) :
    (w.register lib sched).history = w.history := by
  unfold SchedWorld.register
  cases lib.entry sched.settings <;> rfl

theorem register_entries (sched : Schedule) (id : String) : (w.register lib sched).entries.get? id =
    if id = sched.id then lib.entry sched.settings else w.entries.get? id := by
  unfold SchedWorld.register
  by_cases hid : id = sched.id
  · rw [if_pos hid, hid]
    cases lib.entry sched.settings with
    | none => exact Bucket.get?_erase_self _ _
    | some e => exact Bucket.get?_put_self _ _ _
  · rw [if_neg hid]
    cases lib.entry sched.settings with
    | none => exact Bucket.get?_erase_ne _ hid
    | some e =>
        show ((w.entries.erase sched.id).put sched.id e).get? id = _
        rw [Bucket.get?_put_ne _ _ hid, Bucket.get?_erase_ne _ hid]

/-- The store as it is in a world. -/
abbrev SettledIn (lib : CronLib) (stored : StoredSchedules lib) (w : SchedWorld) : Prop :=
  Settled lib stored w.schedules w.runs w.history

theorem settled_effect (hs : SettledIn lib stored s.world) {op : ScheduleOp} {v v' : ScheduleView}
    (h : Effect lib s i op w' v v') : SettledIn lib stored w' := by
  cases h with
  | quiet hsch hr _ hh =>
      rw [SettledIn, hsch, hr, hh]
      exact hs
  | fetched id sched hw =>
      rw [hw]
      exact hs
  | patched sched cur old req _ _ _ _ hvalid hcur hsettings hlast hw =>
      rw [hw]
      have hset : sched.toScheduleSettings = req.apply cur.settings := hsettings
      refine hs.put hcur hsettings hlast ?_
      rcases hvalid with ⟨hspec, htz⟩ | hvalid
      · have hc : sched.cronSpec = cur.cronSpec := by
          rw [hset, ScheduleUpdateSpec.apply, hspec]
          rfl
        have ht : sched.timezone = cur.timezone := by
          rw [hset, ScheduleUpdateSpec.apply, htz]
          rfl
        rw [hc, ht]
        exact hs.valid _ cur hcur
      · exact hvalid
  | fired sched cur hcur hsettings hlast hw =>
      rw [hw]
      have hset : sched.toScheduleSettings = cur.settings := hsettings
      refine hs.put hcur hsettings hlast ?_
      rw [hset]
      exact hs.valid _ cur hcur
  | deleted id _ _ hw =>
      rw [hw]
      exact hs.delete id
  | ran id run hstored hw =>
      rw [hw]
      exact hs.ran hstored _
  | registered sched _ _ hw =>
      rw [hw, SettledIn, register_schedules, register_runs, register_history]
      exact hs
  | unregistered id _ _ _ hw =>
      rw [hw]
      exact hs

/-! ### Calls -/

/-- What holds of one call's account. -/
structure Honest (w : SchedWorld) (op : ScheduleOp) (v : ScheduleView) : Prop where
  read : ∀ id sched, v.read = some (id, sched) → sched.id = id
  asking : v.unsettled ≠ none → op.isRequest = true
  wrote : v.wrote = true → ∀ id req, op = .update id req →
    ∃ at', .wrote id (.patch req) at' ∈ w.history
  dropped : v.dropped = true → ∀ id, op = .delete id → .deleted id ∈ w.history

theorem honest_empty (w : SchedWorld) (op : ScheduleOp) : Honest w op {} where
  read := fun _ _ h => by simp at h
  asking := fun h => absurd rfl h
  wrote := fun h => by simp at h
  dropped := fun h => by simp at h

theorem Honest.grow {op : ScheduleOp} {v : ScheduleView} (h : Honest w op v)
    (hgrow : ∀ m ∈ w.history, m ∈ w'.history) : Honest w' op v where
  read := h.read
  asking := h.asking
  wrote := by
    intro hwrote id req hop
    obtain ⟨at', hmem⟩ := h.wrote hwrote id req hop
    exact ⟨at', hgrow _ hmem⟩
  dropped := fun hdropped id hop => hgrow _ (h.dropped hdropped id hop)

variable {op : ScheduleOp} {v v' : ScheduleView}

theorem history_effect (h : Effect lib s i op w' v v') : ∀ m ∈ s.world.history, m ∈ w'.history := by
  intro m hm
  cases h with
  | quiet _ _ _ hh => exact hh ▸ hm
  | fetched id sched hw => exact hw ▸ hm
  | patched _ _ _ _ _ _ _ _ _ _ _ _ hw => exact hw ▸ List.mem_cons_of_mem _ hm
  | fired _ _ _ _ _ hw => exact hw ▸ List.mem_cons_of_mem _ hm
  | deleted _ _ _ hw => exact hw ▸ List.mem_cons_of_mem _ hm
  | ran _ _ _ hw => exact hw ▸ hm
  | registered sched _ _ hw =>
      rw [hw, register_history]
      exact hm
  | unregistered _ _ _ _ hw => exact hw ▸ hm

theorem honest_effect (hs : SettledIn lib stored s.world) (hv : Honest s.world op v)
    (h : Effect lib s i op w' v v') : Honest w' op v' := by
  have hgrown := hv.grow (history_effect h)
  cases h with
  | quiet _ _ _ _ hread hwrote hdropped hunsettled =>
      refine ⟨?_, ?_, ?_, ?_⟩
      · rw [hread]
        exact hgrown.read
      · rw [hunsettled]
        exact hgrown.asking
      · rw [hwrote]
        exact hgrown.wrote
      · rw [hdropped]
        exact hgrown.dropped
  | fetched id sched _ hstored hv' =>
      subst hv'
      refine { hgrown with read := ?_ }
      rintro id' sched' heq
      obtain ⟨rfl, rfl⟩ := Prod.mk.injEq _ _ _ _ ▸ Option.some.inj heq
      exact hs.keyed _ _ hstored
  | patched sched cur old req hop hread hid _ _ _ _ _ hw hv' =>
      subst hv'
      refine { hgrown with asking := fun _ => by rw [hop]; rfl, wrote := ?_ }
      rintro - id req' hop'
      obtain ⟨rfl, rfl⟩ : op.target = id ∧ req = req' := by
        rw [hop'] at hop ⊢
        simpa [ScheduleOp.target] using hop.symm
      refine ⟨sched.lastFiredAt, ?_⟩
      rw [hw, ← hv.read _ _ hread, ← hid]
      exact List.mem_cons_self
  | fired sched cur _ _ _ _ hv' => exact hv' ▸ hgrown
  | deleted id hop _ hw hv' =>
      subst hv'
      refine { hgrown with asking := fun _ => by rw [hop]; rfl, dropped := ?_ }
      rintro - id' hop'
      obtain rfl : id = id' := by
        rw [hop'] at hop
        simpa using hop.symm
      rw [hw]
      exact List.mem_cons_self
  | ran _ _ _ _ hv' => exact hv' ▸ hgrown
  | registered sched _ _ _ hv' =>
      subst hv'
      exact { hgrown with asking := fun h => absurd rfl h }
  | unregistered id _ _ _ _ hv' =>
      subst hv'
      exact { hgrown with asking := fun h => absurd rfl h }

/-- Whoever is not yet to tell the engine about a schedule leaves its entry as the store
calls for it; whoever tells it makes it so, unless another is yet to. -/
theorem entries_effect (hs : SettledIn lib stored s.world) (hv : Honest s.world op v)
    (h : Effect lib s i op w' v v') {id : String} (hafter : v'.unsettled ≠ some id)
    (hothers : ∀ (j : Nat) (u : SchedCall), s.threads[j]? = some u → j ≠ i →
      (view u).unsettled ≠ some id)
    (hbefore : v.unsettled ≠ some id → s.world.entries.get? id = s.world.calledFor lib id) :
    w'.entries.get? id = w'.calledFor lib id := by
  have hput : ∀ sched : Schedule, id ≠ sched.id →
      ((s.world.schedules.put sched.id sched).get? id).bind (fun s => lib.entry s.settings) =
        s.world.calledFor lib id := by
    intro sched hne
    rw [Bucket.get?_put_ne _ _ hne]
    rfl
  cases h with
  | quiet hsch _ he _ _ _ _ hunsettled =>
      rw [SchedWorld.calledFor, hsch, he]
      exact hbefore (hunsettled ▸ hafter)
  | fetched _ _ hw _ hv' =>
      subst hw hv'
      exact hbefore hafter
  | patched sched _ _ _ _ _ _ hunsettled _ _ _ _ hw hv' =>
      subst hw hv'
      have hne : id ≠ sched.id := fun heq => hafter (heq ▸ rfl)
      rw [SchedWorld.calledFor]
      exact (hbefore (by rw [hunsettled]; simp)).trans (hput sched hne).symm
  | fired sched cur hcur hsettings _ hw hv' =>
      subst hw hv'
      refine (hbefore hafter).trans ?_
      rw [SchedWorld.calledFor, SchedWorld.calledFor]
      by_cases hid : id = sched.id
      · rw [hid, hcur, Bucket.get?_put_self, Option.bind_some, Option.bind_some, hsettings]
      · exact (hput sched hid).symm
  | deleted id' _ hunsettled hw hv' =>
      subst hw hv'
      have hne : id ≠ id' := fun heq => hafter (heq ▸ rfl)
      refine (hbefore (by rw [hunsettled]; simp)).trans ?_
      rw [SchedWorld.calledFor, SchedWorld.calledFor, Bucket.get?_erase_ne _ hne]
  | ran _ _ _ hw hv' =>
      subst hw hv'
      exact hbefore hafter
  | registered sched hunsettled hwhy hw hv' =>
      subst hw
      rw [SchedWorld.calledFor, register_schedules, register_entries]
      by_cases hid : id = sched.id
      · rw [if_pos hid]
        subst hid
        rcases hwhy with heq | ⟨j, u, hu, hji, hun⟩
        · exact heq.symm
        · exact absurd hun (hothers j u hu hji)
      · rw [if_neg hid]
        exact hbefore (by rw [hunsettled]; exact fun heq => hid (Option.some.inj heq).symm)
  | unregistered id' hunsettled hdropped hop hw hv' =>
      subst hw
      by_cases hid : id = id'
      · subst hid
        have hgone := hs.gone id (hv.dropped hdropped id hop)
        rw [SchedWorld.calledFor, SchedWorld.unregister, hgone]
        exact Bucket.get?_erase_self _ _
      · refine (Bucket.get?_erase_ne _ hid).trans ?_
        exact hbefore (by rw [hunsettled]; exact fun heq => hid (Option.some.inj heq).symm)

/-! ### The invariant -/

structure Inv (lib : CronLib) (stored : StoredSchedules lib) (s : SchedSys) : Prop where
  sound : s.Sound (fun op log c => op.ok lib (ScheduleLog.view log) c)
    fun op res log => op.post res (ScheduleLog.view log)
  kept : ∀ t ∈ s.threads, t.lost = false
  settled : SettledIn lib stored s.world
  honest : ∀ t ∈ s.threads, Honest s.world t.op (view t)
  entries : ∀ id, (∀ t ∈ s.threads, (view t).unsettled ≠ some id) →
    s.world.entries.get? id = s.world.calledFor lib id

/-- Registering one schedule after the other, all of them stored. -/
theorem start_entries (scheds : List Schedule) (w : SchedWorld) :
    (scheds.foldl (SchedWorld.register lib) w).schedules = w.schedules ∧
      (scheds.foldl (SchedWorld.register lib) w).runs = w.runs ∧
      (scheds.foldl (SchedWorld.register lib) w).history = w.history ∧
      ((∀ sched ∈ scheds, w.schedules.get? sched.id = some sched) → ∀ id,
        (scheds.foldl (SchedWorld.register lib) w).entries.get? id =
          if id ∈ scheds.map Schedule.id then w.calledFor lib id else w.entries.get? id) := by
  induction scheds generalizing w with
  | nil => exact ⟨rfl, rfl, rfl, fun _ id => by simp⟩
  | cons sched scheds ih =>
      obtain ⟨hsch, hruns, hhist, hent⟩ := ih (w.register lib sched)
      rw [register_schedules] at hsch hent
      rw [register_runs] at hruns
      rw [register_history] at hhist
      refine ⟨hsch, hruns, hhist, fun hall id => ?_⟩
      have hhead := hall sched List.mem_cons_self
      have hcalled : (w.register lib sched).calledFor lib id = w.calledFor lib id := by
        rw [SchedWorld.calledFor, register_schedules]
        rfl
      rw [List.foldl_cons, hent (fun s' hs' => hall s' (List.mem_cons_of_mem _ hs')) id, hcalled,
        register_entries, List.map_cons]
      by_cases hid : id = sched.id
      · have hself : w.calledFor lib id = lib.entry sched.settings := by
          rw [SchedWorld.calledFor, hid, hhead, Option.bind_some]
        have hin : id ∈ sched.id :: scheds.map Schedule.id := hid ▸ List.mem_cons_self
        rw [if_pos hid, if_pos hin, hself, ite_self]
      · rw [if_neg hid]
        simp [hid]

theorem inv_init (stored : StoredSchedules lib) : Inv lib stored (init lib stored) := by
  obtain ⟨hsch, hruns, hhist, hent⟩ := @start_entries lib stored.schedules.values
    { schedules := stored.schedules, runs := stored.runs }
  refine ⟨fun t ht => absurd ht List.not_mem_nil, fun t ht => absurd ht List.not_mem_nil, ?_,
    fun t ht => absurd ht List.not_mem_nil, fun id _ => ?_⟩
  · show Settled lib stored (start lib stored).schedules (start lib stored).runs
      (start lib stored).history
    rw [start, hsch, hruns, hhist]
    exact settled_init
  · have hvalues : ∀ sched ∈ stored.schedules.values, stored.schedules.get? sched.id = some sched := by
      intro sched hsched
      obtain ⟨id', hid'⟩ := Bucket.mem_values.mp hsched
      rw [stored.keyed id' sched hid']
      exact hid'
    show (start lib stored).entries.get? id = (start lib stored).calledFor lib id
    rw [SchedWorld.calledFor, start, hsch, hent hvalues id]
    split_ifs with hmem
    · rfl
    · cases hget : stored.schedules.get? id with
      | none => rfl
      | some sched =>
          have hsched := Bucket.mem_values.mpr ⟨id, hget⟩
          exact absurd (stored.keyed id sched hget ▸ List.mem_map_of_mem hsched) hmem

/-- A new call has been answered nothing. -/
theorem inv_call {cfg : EngineConfig} (hs : Inv lib stored s) {op : ScheduleOp}
    (h : step lib cfg s (.call op) = some s') : Inv lib stored s' := by
  have hsound := Pool.sound_step (fun op => scheduleOp_alone cfg op) hs.sound h
  obtain rfl := Option.some.inj h
  have hnew : ∀ t ∈ (s.add op (op.body lib cfg)).threads, t ∈ s.threads ∨
      t = { op := op, prog := op.body lib cfg, beside := s.inFlight } := by
    intro t ht
    rcases List.mem_append.mp ht with hold | hnew
    · exact .inl hold
    · exact .inr (List.mem_singleton.mp hnew)
  refine ⟨hsound, fun t ht => ?_, hs.settled, fun t ht => ?_, fun id hid => ?_⟩
  · rcases hnew t ht with hold | rfl
    · exact hs.kept t hold
    · rfl
  · rcases hnew t ht with hold | rfl
    · exact hs.honest t hold
    · exact honest_empty _ _
  · exact hs.entries id fun t ht => hid t (List.mem_append_left _ ht)

theorem inv_answer {cfg : EngineConfig} (hs : Inv lib stored s) (hclear : Clear lib s (.step i x))
    (h : step lib cfg s (.step i x) = some s') : Inv lib stored s' := by
  have hsound := Pool.sound_step (fun op => scheduleOp_alone cfg op) hs.sound h
  obtain ⟨t, c, k, r, w', ht, -, hprog, hexec, rfl⟩ := Pool.step_step h
  have hmem := List.mem_of_getElem? ht
  have hclear : admits lib s i x c = true := by
    have := hclear t ht
    rwa [clear, hprog] at this
  have heffect : Effect lib s i t.op w' (view t) ((view t).add c r) :=
    effect (hs.sound.allowed ht hprog) hclear hexec
  have hview : view (t.advance c r (k r)) = (view t).add c r := rfl
  have hget : (s.threads.set i (t.advance c r (k r)))[i]? = some (t.advance c r (k r)) :=
    List.getElem?_set_self (List.getElem?_eq_some_iff.mp ht).1
  have hset : ∀ u ∈ s.threads.set i (t.advance c r (k r)), u ∈ s.threads ∨ u = t.advance c r (k r) :=
    fun u hu => List.mem_or_eq_of_mem_set hu
  refine ⟨hsound, fun u hu => ?_, settled_effect hs.settled heffect, fun u hu => ?_, fun id hid => ?_⟩
  · rcases hset u hu with hold | rfl
    · exact hs.kept u hold
    · exact hs.kept t hmem
  · rcases hset u hu with hold | rfl
    · exact (hs.honest u hold).grow (history_effect heffect)
    · rw [hview]
      exact honest_effect hs.settled (hs.honest t hmem) heffect
  · have hothers : ∀ (j : Nat) (u : SchedCall), s.threads[j]? = some u → j ≠ i →
        (view u).unsettled ≠ some id := by
      intro j u hu hji
      have hu' : (s.threads.set i (t.advance c r (k r)))[j]? = some u := by
        rw [List.getElem?_set_ne (Ne.symm hji)]
        exact hu
      exact hid u (List.mem_of_getElem? hu')
    refine entries_effect hs.settled (hs.honest t hmem) heffect ?_ hothers fun hbefore => ?_
    · rw [← hview]
      exact hid _ (List.mem_of_getElem? hget)
    · refine hs.entries id fun u hu => ?_
      obtain ⟨j, hj⟩ := List.getElem?_of_mem hu
      by_cases hji : j = i
      · subst hji
        rw [ht] at hj
        exact Option.some.inj hj ▸ hbefore
      · exact hothers j u hj hji

theorem inv_step {cfg : EngineConfig} (s : SchedSys) (l : SchedLabel) (s' : SchedSys)
    (hs : Inv lib stored s) (hclear : Clear lib s l) (h : step lib cfg s l = some s') :
    Inv lib stored s' := by
  cases l with
  | call op => exact inv_call hs h
  | step i x => exact inv_answer hs hclear h
  | env e => exact e.elim
  | restart op => exact hclear.elim

/-- How a call that is not in flight has ended. -/
theorem Inv.ended (hs : Inv lib stored s) {t : SchedCall} (ht : t ∈ s.threads)
    (hdone : t.inFlight = false) : ∃ res, t.prog.result? = some res ∧ t.op.post res (view t) := by
  obtain ⟨res, hres⟩ := Thread.ended_of_not_inFlight hdone (hs.kept t ht)
  exact ⟨res, hres, hs.sound.ended ht hres⟩

end SchedSys

end VMSmith
