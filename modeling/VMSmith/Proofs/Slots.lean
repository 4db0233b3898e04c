/-
A schedule's fires keep to its limit.

The slots of a schedule are those of its channel, and as long as everybody uses the same
one no more fires hold a slot than it has room for.  Registering the schedule anew makes a
new channel while fires hold slots of the old one; and between the write of a lower limit
and the registration the channel still has the old one.  `Steady` is the condition on a
step that excludes these.
-/
import VMSmith.Proofs.ScheduleCalls

namespace VMSmith

open SchedCall (view)

namespace SchedSys

/-- The call is a fire of this schedule that holds a slot. -/
def holds (id : String) (t : SchedCall) : Bool := t.op.target = id && (view t).held.isSome

/-- How many fires of a schedule hold a slot. -/
def holders (s : SchedSys) (id : String) : Nat := s.threads.countP (holds id)

/-- No fire of this schedule has looked its channel up and not done with it. -/
def undisturbed (s : SchedSys) (id : String) : Bool :=
  s.threads.all fun u => u.op.target ≠ id || (view u).looked.isNone

/-- The call may have this command answered. -/
def permits (s : SchedSys) : SchedCmd → Bool
  | .register sched => undisturbed s sched.id
  | .unregister id => undisturbed s id
  | .acquire id sem => (s.world.slots[sem]?).all fun slots =>
      slots.capacity ≤ slots.taken || slots.capacity ≤ s.world.limit id
  | _ => true

def steady (s : SchedSys) (t : SchedCall) : Bool :=
  match t.prog with
  | .call c _ => permits s c
  | _ => true

/-- The condition on a step; the engine is not restarted. -/
def Steady (s : SchedSys) : SchedLabel → Prop
  | .step i _ => ∀ t ∈ s.threads[i]?, steady s t = true
  | .restart _ => False
  | _ => True

instance : ∀ (s : SchedSys) (l : SchedLabel), Decidable (Steady s l)
  | _, .step _ _ => inferInstanceAs (Decidable (∀ _ ∈ _, _))
  | _, .call _ => .isTrue trivial
  | _, .env _ => .isTrue trivial
  | _, .restart _ => .isFalse id

/-- No more fires of a schedule hold a slot than the limit its stored record set when the
last of them took it. -/
def Limited (s : SchedSys) : Prop :=
  ∀ t ∈ s.threads, ∀ a, (view t).held = some a →
    (∀ u ∈ s.threads, holds t.op.target u = true → ∀ b, (view u).held = some b →
      b.number ≤ a.number) →
    s.holders t.op.target ≤ a.limit

theorem undisturbed_iff {s : SchedSys} {id : String} : undisturbed s id = true ↔
    ∀ u ∈ s.threads, u.op.target = id → (view u).looked = none := by
  simp only [undisturbed, List.all_eq_true, Bool.or_eq_true, decide_eq_true_eq,
    Option.isNone_iff_eq_none]
  exact forall₂_congr fun u _ => ⟨fun h hid => h.resolve_left (not_not.mpr hid),
    fun h => or_iff_not_imp_left.mpr fun hid => h (not_not.mp hid)⟩

/-! ### What one step can do -/

/-- What one command of a call does to the channels, and to its account. -/
inductive SlotEffect (s : SchedSys) (op : ScheduleOp) (w' : SchedWorld) (v v' : ScheduleView) : Prop
  | quiet (hsems : w'.sems = s.world.sems) (hslots : w'.slots = s.world.slots)
      (hlooked : v'.looked = v.looked) (hheld : v'.held = v.held)
  | registered (id : String) (capacity : Nat) (hfree : undisturbed s id = true)
      (hsems : w'.sems = s.world.sems.put id s.world.slots.length)
      (hslots : w'.slots = s.world.slots ++ [{ capacity := capacity }])
      (hlooked : v'.looked = v.looked) (hheld : v'.held = v.held)
  | unregistered (id : String) (hfree : undisturbed s id = true)
      (hsems : w'.sems = s.world.sems.erase id) (hslots : w'.slots = s.world.slots)
      (hlooked : v'.looked = v.looked) (hheld : v'.held = v.held)
  | found (sem : Nat) (hidle : v.held = none) (hsem : s.world.sems.get? op.target = some sem)
      (hw : w' = s.world) (hlooked : v'.looked = some sem) (hheld : v'.held = v.held)
  | opened (hidle : v.held = none) (hnone : s.world.sems.get? op.target = none)
      (hsems : w'.sems = s.world.sems.put op.target s.world.slots.length)
      (hslots : w'.slots = s.world.slots ++ [{ capacity := 1 }])
      (hlooked : v'.looked = some s.world.slots.length) (hheld : v'.held = v.held)
  | admitted (sem : Nat) (slots : Slots) (a : Admission) (hbefore : v.looked = some sem)
      (hidle : v.held = none) (hget : s.world.slots[sem]? = some slots)
      (hroom : slots.taken < slots.capacity) (hlimit : slots.capacity ≤ a.limit)
      (hsems : w'.sems = s.world.sems)
      (hslots : w'.slots = s.world.slots.set sem { slots with taken := slots.taken + 1 })
      (hlooked : v'.looked = v.looked) (hheld : v'.held = some a)
  | refused (hidle : v.held = none) (hw : w' = s.world) (hlooked : v'.looked = none)
      (hheld : v'.held = none)
  | released (sem : Nat) (slots : Slots) (hbefore : v.looked = some sem) (hheld : v.held.isSome)
      (hget : s.world.slots[sem]? = some slots) (hsems : w'.sems = s.world.sems)
      (hslots : w'.slots = s.world.slots.set sem { slots with taken := slots.taken - 1 })
      (hlooked' : v'.looked = none) (hheld' : v'.held = none)

variable {lib : CronLib} {s s' : SchedSys} {i : Nat} {t : SchedCall} {x : SchedChoice}
  {w w' : SchedWorld} {op : ScheduleOp} {v v' : ScheduleView}

theorem register_sems (sched : Schedule) : (w.register lib sched).sems =
    w.sems.put sched.id w.slots.length := by
  unfold SchedWorld.register
  cases lib.entry sched.settings <;> rfl

theorem register_slots (sched : Schedule) : (w.register lib sched).slots =
    w.slots ++ [{ capacity := slotLimit sched.maxConcurrent }] := by
  unfold SchedWorld.register
  cases lib.entry sched.settings <;> rfl

theorem slotEffect {c : SchedCmd} {r : c.Resp} (hok : t.op.ok lib (view t) c)
    (hpermits : permits s c = true) (hexec : SchedWorld.exec lib c x s.world = some (r, w')) :
    SlotEffect s t.op w' (view t) ((view t).add c r) := by
  cases c with
  | getSchedule id =>
      rcases fallible_eq hexec with ⟨e, rfl, rfl⟩ | ⟨sched, -, hact, rfl⟩
      · exact .quiet rfl rfl rfl rfl
      · split at hact
        · simp only [Except.ok.injEq, Prod.mk.injEq] at hact
          obtain ⟨rfl, rfl⟩ := hact
          exact .quiet rfl rfl rfl rfl
        · simp at hact
  | putSchedule sched why =>
      change Except Err Unit at r
      rcases fallible_ok hexec with ⟨-, ⟨e, rfl⟩, rfl⟩ | ⟨hx, rfl, rfl⟩
      · cases why <;> exact .quiet rfl rfl rfl rfl
      · cases why <;> exact .quiet rfl rfl rfl rfl
  | deleteSchedule id =>
      change Except Err Unit at r
      rcases fallible_ok hexec with ⟨-, ⟨e, rfl⟩, rfl⟩ | ⟨-, rfl, rfl⟩
      · exact .quiet rfl rfl rfl rfl
      · exact .quiet rfl rfl rfl rfl
  | appendRun id run =>
      change Except Err Unit at r
      rcases fallible_ok hexec with ⟨-, ⟨e, rfl⟩, rfl⟩ | ⟨hx, rfl, rfl⟩
      · exact .quiet rfl rfl rfl rfl
      · exact .quiet rfl rfl rfl rfl
  | register sched =>
      obtain ⟨rfl, rfl⟩ := Prod.mk.injEq _ _ _ _ ▸ Option.some.inj hexec
      exact .registered sched.id _ hpermits (register_sems sched) (register_slots sched) rfl rfl
  | unregister id =>
      obtain ⟨rfl, rfl⟩ := Prod.mk.injEq _ _ _ _ ▸ Option.some.inj hexec
      exact .unregistered id hpermits rfl rfl rfl rfl
  | semaphore id =>
      obtain ⟨rfl, -, hidle⟩ := hok
      simp only [SchedWorld.exec] at hexec
      split at hexec
      · next sem hsem =>
          obtain ⟨rfl, rfl⟩ := Prod.mk.injEq _ _ _ _ ▸ Option.some.inj hexec
          exact .found _ hidle hsem rfl rfl rfl
      · next hnone =>
          obtain ⟨rfl, rfl⟩ := Prod.mk.injEq _ _ _ _ ▸ Option.some.inj hexec
          exact .opened hidle hnone rfl rfl rfl rfl
  | acquire id sem =>
      obtain ⟨rfl, hbefore, hidle⟩ := hok
      simp only [SchedWorld.exec] at hexec
      split at hexec
      · simp at hexec
      · next slots hget =>
          split_ifs at hexec with hroom
          · obtain ⟨rfl, rfl⟩ := Prod.mk.injEq _ _ _ _ ▸ Option.some.inj hexec
            have hlimit : slots.capacity ≤ s.world.limit t.op.target := by
              simp only [permits, hget, Option.all_some, Bool.or_eq_true, decide_eq_true_eq] at hpermits
              omega
            exact .admitted sem slots _ hbefore hidle hget hroom hlimit rfl rfl rfl rfl
          · obtain ⟨rfl, rfl⟩ := Prod.mk.injEq _ _ _ _ ▸ Option.some.inj hexec
            exact .refused hidle rfl rfl hidle
  | release sem =>
      obtain ⟨hbefore, hheld⟩ := hok
      simp only [SchedWorld.exec] at hexec
      split at hexec
      · simp at hexec
      · next slots hget =>
          obtain ⟨rfl, rfl⟩ := Prod.mk.injEq _ _ _ _ ▸ Option.some.inj hexec
          exact .released sem slots hbefore hheld hget rfl rfl rfl rfl
  | listVMs =>
      rcases fallible_ok hexec with ⟨-, ⟨e, rfl⟩, rfl⟩ | ⟨-, rfl, rfl⟩
      · exact .quiet rfl rfl rfl rfl
      · exact .quiet rfl rfl rfl rfl
  | vmExists id | act action vmID scheduledTime | now | publish evt =>
      obtain ⟨rfl, rfl⟩ := Prod.mk.injEq _ _ _ _ ▸ Option.some.inj hexec
      exact .quiet rfl rfl rfl rfl

/-! ### The invariant -/

/-- The channels as the engine's map has them. -/
structure Channels (w : SchedWorld) : Prop where
  made : ∀ id sem, w.sems.get? id = some sem → sem < w.slots.length
  apart : ∀ id id' sem, w.sems.get? id = some sem → w.sems.get? id' = some sem → id = id'

/-- What holds of one call's account: it uses the channel of its schedule, and that has no
more room than its limit says. -/
structure Keeps (w : SchedWorld) (op : ScheduleOp) (v : ScheduleView) : Prop where
  known : ∀ sem, v.looked = some sem → w.sems.get? op.target = some sem
  holding : v.held.isSome → v.looked.isSome
  limit : ∀ a sem slots, v.held = some a → v.looked = some sem → w.slots[sem]? = some slots →
    slots.capacity ≤ a.limit

structure SlotInv (lib : CronLib) (s : SchedSys) : Prop where
  sound : s.Sound (fun op log c => op.ok lib (ScheduleLog.view log) c)
    fun op res log => op.post res (ScheduleLog.view log)
  channels : Channels s.world
  keeps : ∀ t ∈ s.threads, Keeps s.world t.op (view t)
  count : ∀ id sem slots, s.world.sems.get? id = some sem → s.world.slots[sem]? = some slots →
    slots.taken = s.holders id ∧ slots.taken ≤ slots.capacity

/-- Nobody holds a slot of a schedule that has no channel. -/
theorem SlotInv.no_holders (hs : SlotInv lib s) {id : String}
    (hfree : ∀ t ∈ s.threads, t.op.target = id → (view t).looked = none) : s.holders id = 0 := by
  refine List.countP_eq_zero.mpr fun t ht hholds => ?_
  rw [holds, Bool.and_eq_true, decide_eq_true_eq] at hholds
  have := (hs.keeps t ht).holding hholds.2
  rw [hfree t ht hholds.1] at this
  simp at this

theorem SlotInv.no_channel (hs : SlotInv lib s) {id : String}
    (hnone : s.world.sems.get? id = none) : ∀ t ∈ s.threads, t.op.target = id →
      (view t).looked = none := by
  intro t ht hid
  cases hlooked : (view t).looked with
  | none => rfl
  | some sem =>
      have := (hs.keeps t ht).known sem hlooked
      rw [hid, hnone] at this
      simp at this

/-- The invariant gives the limit. -/
theorem SlotInv.limited (hs : SlotInv lib s) : Limited s := by
  intro t ht a ha _
  have hkeeps := hs.keeps t ht
  obtain ⟨sem, hsem⟩ := Option.isSome_iff_exists.mp (hkeeps.holding (by rw [ha]; rfl))
  have hknown := hkeeps.known sem hsem
  obtain ⟨slots, hget⟩ : ∃ slots, s.world.slots[sem]? = some slots :=
    ⟨_, List.getElem?_eq_getElem (hs.channels.made _ sem hknown)⟩
  obtain ⟨htaken, hroom⟩ := hs.count _ sem slots hknown hget
  have := hkeeps.limit a sem slots ha hsem hget
  omega

/-! ### One step after the other -/

/-- A channel at the end of those made is no other's. -/
theorem Channels.open (h : Channels w) (id : String) (capacity : Nat)
    (hsems : w'.sems = w.sems.put id w.slots.length)
    (hslots : w'.slots = w.slots ++ [{ capacity := capacity }]) : Channels w' where
  made := by
    intro id' sem hsem
    rw [hslots, List.length_append, List.length_singleton]
    rw [hsems] at hsem
    rcases Bucket.mem_put hsem with ⟨-, rfl⟩ | ⟨-, hold⟩
    · exact Nat.lt_succ_self _
    · exact Nat.lt_succ_of_lt (h.made id' sem hold)
  apart := by
    intro id₁ id₂ sem h₁ h₂
    rw [hsems] at h₁ h₂
    rcases Bucket.mem_put h₁ with ⟨rfl, rfl⟩ | ⟨-, hold₁⟩
    · rcases Bucket.mem_put h₂ with ⟨rfl, -⟩ | ⟨-, hold₂⟩
      · rfl
      · exact absurd (h.made _ _ hold₂) (Nat.lt_irrefl _)
    · rcases Bucket.mem_put h₂ with ⟨rfl, rfl⟩ | ⟨-, hold₂⟩
      · exact absurd (h.made _ _ hold₁) (Nat.lt_irrefl _)
      · exact h.apart id₁ id₂ sem hold₁ hold₂

theorem Channels.keep (h : Channels w)
    (hsems : ∀ id sem, w'.sems.get? id = some sem → w.sems.get? id = some sem)
    (hslots : w'.slots.length = w.slots.length) : Channels w' where
  made := fun id sem hsem => hslots ▸ h.made id sem (hsems id sem hsem)
  apart := fun id id' sem hid hid' => h.apart id id' sem (hsems id sem hid) (hsems id' sem hid')

theorem channels_effect (h : Channels s.world) (he : SlotEffect s op w' v v') : Channels w' := by
  cases he with
  | quiet hsems hslots => exact h.keep (fun _ _ hsem => hsems ▸ hsem) (hslots ▸ rfl)
  | registered id capacity _ hsems hslots => exact h.open id capacity hsems hslots
  | unregistered id _ hsems hslots =>
      refine h.keep (fun id' sem hsem => ?_) (hslots ▸ rfl)
      rw [hsems] at hsem
      exact (Bucket.mem_erase.mp hsem).2
  | found sem _ _ hw => exact hw ▸ h
  | opened _ _ hsems hslots => exact h.open op.target 1 hsems hslots
  | admitted sem slots a _ _ _ _ _ hsems hslots =>
      exact h.keep (fun _ _ hsem => hsems ▸ hsem) (by rw [hslots, List.length_set])
  | refused _ hw => exact hw ▸ h
  | released sem slots _ _ _ hsems hslots =>
      exact h.keep (fun _ _ hsem => hsems ▸ hsem) (by rw [hslots, List.length_set])

/-- The account stays fair while its channel stays and keeps its room. -/
theorem Keeps.mono (h : Keeps w op v)
    (hsems : ∀ sem, v.looked = some sem → w'.sems.get? op.target = some sem)
    (hslots : ∀ sem slots, v.looked = some sem → w'.slots[sem]? = some slots →
      ∃ slots₀, w.slots[sem]? = some slots₀ ∧ slots₀.capacity = slots.capacity) : Keeps w' op v where
  known := hsems
  holding := h.holding
  limit := by
    intro a sem slots ha hsem hget
    obtain ⟨slots₀, hget₀, hcap⟩ := hslots sem slots hsem hget
    rw [← hcap]
    exact h.limit a sem slots₀ ha hsem hget₀

/-- Replacing a channel by one of the same room. -/
theorem capacity_set {sem sem' : Nat} {slots new slots' : Slots} {all : List Slots}
    (hget : all[sem]? = some slots) (hcap : new.capacity = slots.capacity)
    (h : (all.set sem new)[sem']? = some slots') :
    ∃ slots₀, all[sem']? = some slots₀ ∧ slots₀.capacity = slots'.capacity := by
  by_cases hsem : sem' = sem
  · subst hsem
    rw [List.getElem?_set_self (List.getElem?_eq_some_iff.mp hget).1] at h
    exact ⟨slots, hget, Option.some.inj h ▸ hcap.symm⟩
  · rw [List.getElem?_set_ne (Ne.symm hsem)] at h
    exact ⟨slots', h, rfl⟩

/-- Whoever else is under way keeps using its channel. -/
theorem keeps_effect (hs : SlotInv lib s) (he : SlotEffect s op w' v v') {u : SchedCall}
    (hu : u ∈ s.threads) : Keeps w' u.op (view u) := by
  have hkeeps := hs.keeps u hu
  have hmade : ∀ sem, (view u).looked = some sem → sem < s.world.slots.length :=
    fun sem hsem => hs.channels.made _ sem (hkeeps.known sem hsem)
  have happend : ∀ (new : Slots) (sem : Nat) (slots : Slots), (view u).looked = some sem →
      (s.world.slots ++ [new])[sem]? = some slots →
      ∃ slots₀, s.world.slots[sem]? = some slots₀ ∧ slots₀.capacity = slots.capacity := by
    intro new sem slots hsem hget
    rw [List.getElem?_append_left (hmade sem hsem)] at hget
    exact ⟨slots, hget, rfl⟩
  cases he with
  | quiet hsems hslots =>
      refine hkeeps.mono (fun sem hsem => hsems ▸ hkeeps.known sem hsem) fun sem slots _ hget => ?_
      exact ⟨slots, hslots ▸ hget, rfl⟩
  | registered id capacity hfree hsems hslots =>
      refine hkeeps.mono (fun sem hsem => ?_) fun sem slots hsem hget =>
        happend _ sem slots hsem (hslots ▸ hget)
      have hne : u.op.target ≠ id := by
        intro hid
        rw [undisturbed_iff.mp hfree u hu hid] at hsem
        simp at hsem
      rw [hsems, Bucket.get?_put_ne _ _ hne]
      exact hkeeps.known sem hsem
  | unregistered id hfree hsems hslots =>
      refine hkeeps.mono (fun sem hsem => ?_) fun sem slots _ hget => ⟨slots, hslots ▸ hget, rfl⟩
      have hne : u.op.target ≠ id := by
        intro hid
        rw [undisturbed_iff.mp hfree u hu hid] at hsem
        simp at hsem
      rw [hsems, Bucket.get?_erase_ne _ hne]
      exact hkeeps.known sem hsem
  | found sem _ _ hw => exact hw ▸ hkeeps
  | opened _ hnone hsems hslots =>
      refine hkeeps.mono (fun sem hsem => ?_) fun sem slots hsem hget =>
        happend _ sem slots hsem (hslots ▸ hget)
      have hne : u.op.target ≠ op.target := by
        intro hid
        rw [hs.no_channel hnone u hu hid] at hsem
        simp at hsem
      rw [hsems, Bucket.get?_put_ne _ _ hne]
      exact hkeeps.known sem hsem
  | admitted sem slots a _ _ hget _ _ hsems hslots =>
      refine hkeeps.mono (fun sem hsem => hsems ▸ hkeeps.known sem hsem) fun sem' slots' _ hget' => ?_
      rw [hslots] at hget'
      exact capacity_set hget (by rfl) hget'
  | refused _ hw => exact hw ▸ hkeeps
  | released sem slots _ _ hget hsems hslots =>
      refine hkeeps.mono (fun sem hsem => hsems ▸ hkeeps.known sem hsem) fun sem' slots' _ hget' => ?_
      rw [hslots] at hget'
      exact capacity_set hget (by rfl) hget'

/-- So does the call that moved. -/
theorem keeps_moved (hs : SlotInv lib s) (ht : t ∈ s.threads)
    (he : SlotEffect s t.op w' (view t) v') : Keeps w' t.op v' := by
  have hkeeps := keeps_effect hs he ht
  have hsame : v'.looked = (view t).looked → v'.held = (view t).held → Keeps w' t.op v' := by
    intro hlooked hheld
    refine ⟨?_, ?_, ?_⟩
    · rw [hlooked]
      exact hkeeps.known
    · rw [hlooked, hheld]
      exact hkeeps.holding
    · rw [hlooked, hheld]
      exact hkeeps.limit
  have hnone : ∀ sem, v'.held = none → (v'.looked = none ∨ v'.looked = some sem ∧
      w'.sems.get? t.op.target = some sem) → Keeps w' t.op v' := by
    intro sem hheld hlooked
    refine ⟨fun sem' hsem' => ?_, fun h => by simp [hheld] at h, fun a _ _ ha => by simp [hheld] at ha⟩
    rcases hlooked with hlooked | ⟨hlooked, hsem⟩
    · simp [hlooked] at hsem'
    · rw [hlooked] at hsem'
      exact Option.some.inj hsem' ▸ hsem
  cases he with
  | quiet _ _ hlooked hheld => exact hsame hlooked hheld
  | registered _ _ _ _ _ hlooked hheld => exact hsame hlooked hheld
  | unregistered _ _ _ _ hlooked hheld => exact hsame hlooked hheld
  | found sem hidle hsem hw hlooked hheld =>
      exact hnone sem (hheld.trans hidle) (.inr ⟨hlooked, hw ▸ hsem⟩)
  | opened hidle _ hsems _ hlooked hheld =>
      refine hnone _ (hheld.trans hidle) (.inr ⟨hlooked, ?_⟩)
      rw [hsems, Bucket.get?_put_self]
  | admitted sem slots a hbefore hidle hget _ hlimit hsems hslots hlooked hheld =>
      refine ⟨fun sem' hsem' => hkeeps.known sem' (hlooked ▸ hsem'), fun _ => ?_, ?_⟩
      · rw [hlooked, hbefore]
        rfl
      · intro a' sem' slots' ha' hsem' hget'
        obtain rfl : a = a' := Option.some.inj (hheld.symm.trans ha')
        obtain rfl : sem = sem' := Option.some.inj ((hlooked.trans hbefore).symm.trans hsem')
        rw [hslots] at hget'
        obtain ⟨slots₀, hget₀, hcap⟩ := capacity_set hget (by rfl) hget'
        rw [hget] at hget₀
        rw [← hcap, ← Option.some.inj hget₀]
        exact hlimit
  | refused _ _ hlooked hheld => exact hnone 0 hheld (.inl hlooked)
  | released _ _ _ _ _ _ _ hlooked hheld => exact hnone 0 hheld (.inl hlooked)

/-- As many slots of a channel are taken as fires of its schedule hold one. -/
theorem count_effect (hs : SlotInv lib s) (ht : s.threads[i]? = some t) {t' : SchedCall}
    (hop : t'.op = t.op) (he : SlotEffect s t.op w' (view t) (view t')) {id : String} {sem : Nat}
    {slots : Slots} (hsem : w'.sems.get? id = some sem) (hget : w'.slots[sem]? = some slots) :
    slots.taken = (s.threads.set i t').countP (holds id) ∧ slots.taken ≤ slots.capacity := by
  have hcount : (s.threads.set i t').countP (holds id) + (if holds id t then 1 else 0) =
      s.holders id + if holds id t' then 1 else 0 := Pool.countP_advance ht t'
  have hunmoved : (view t').held.isSome = (view t).held.isSome →
      (s.threads.set i t').countP (holds id) = s.holders id := by
    intro hheld
    have : holds id t' = holds id t := by rw [holds, holds, hop, hheld]
    rw [this] at hcount
    omega
  have hopened : ∀ (id₀ : String) (capacity : Nat), (view t').held = (view t).held →
      (∀ u ∈ s.threads, u.op.target = id₀ → (view u).looked = none) →
      w'.sems = s.world.sems.put id₀ s.world.slots.length →
      w'.slots = s.world.slots ++ [{ capacity := capacity }] →
      slots.taken = (s.threads.set i t').countP (holds id) ∧ slots.taken ≤ slots.capacity := by
    intro id₀ capacity hheld hfree hsems hslots
    rw [hunmoved (by rw [hheld])]
    rw [hsems] at hsem
    rw [hslots] at hget
    rcases Bucket.mem_put hsem with ⟨rfl, rfl⟩ | ⟨-, hold⟩
    · rw [List.getElem?_concat_length] at hget
      rw [hs.no_holders hfree, ← Option.some.inj hget]
      exact ⟨rfl, Nat.zero_le _⟩
    · rw [List.getElem?_append_left (hs.channels.made id sem hold)] at hget
      exact hs.count id sem slots hold hget
  have hmem := List.mem_of_getElem? ht
  cases he with
  | quiet hsems hslots _ hheld =>
      rw [hunmoved (by rw [hheld])]
      exact hs.count id sem slots (hsems ▸ hsem) (hslots ▸ hget)
  | registered id₀ capacity hfree hsems hslots _ hheld =>
      exact hopened id₀ capacity hheld (undisturbed_iff.mp hfree) hsems hslots
  | unregistered id₀ _ hsems hslots _ hheld =>
      rw [hunmoved (by rw [hheld])]
      rw [hsems] at hsem
      exact hs.count id sem slots (Bucket.mem_erase.mp hsem).2 (hslots ▸ hget)
  | found sem₀ _ _ hw _ hheld =>
      rw [hunmoved (by rw [hheld])]
      exact hs.count id sem slots (hw ▸ hsem) (hw ▸ hget)
  | opened _ hnone hsems hslots _ hheld =>
      exact hopened t.op.target 1 hheld (hs.no_channel hnone) hsems hslots
  | refused hidle hw _ hheld =>
      rw [hunmoved (by rw [hheld, hidle])]
      exact hs.count id sem slots (hw ▸ hsem) (hw ▸ hget)
  | admitted sem₀ slots₀ a hbefore hidle hget₀ hroom _ hsems hslots _ hheld =>
      have hknown := (hs.keeps t hmem).known sem₀ hbefore
      rw [hsems] at hsem
      rw [hslots] at hget
      by_cases hid : t.op.target = id
      · subst hid
        obtain rfl : sem₀ = sem := Option.some.inj (hknown.symm.trans hsem)
        rw [List.getElem?_set_self (List.getElem?_eq_some_iff.mp hget₀).1] at hget
        obtain rfl := Option.some.inj hget
        have hbefore : holds t.op.target t = false := by simp [holds, hidle]
        have hafter : holds t.op.target t' = true := by simp [holds, hop, hheld]
        rw [hbefore, hafter] at hcount
        have := (hs.count _ _ slots₀ hsem hget₀).1
        simp only [Bool.false_eq_true, if_false, if_true] at hcount
        show slots₀.taken + 1 = _ ∧ slots₀.taken + 1 ≤ slots₀.capacity
        omega
      · have hne : sem ≠ sem₀ := fun heq => hid (hs.channels.apart _ _ sem₀ hknown (heq ▸ hsem))
        rw [List.getElem?_set_ne (Ne.symm hne)] at hget
        have hbefore : holds id t = false := by simp [holds, hid]
        have hafter : holds id t' = false := by simp [holds, hop, hid]
        rw [hbefore, hafter] at hcount
        have := hs.count id sem slots hsem hget
        omega
  | released sem₀ slots₀ hbefore hheld hget₀ hsems hslots _ hheld' =>
      have hknown := (hs.keeps t hmem).known sem₀ hbefore
      rw [hsems] at hsem
      rw [hslots] at hget
      by_cases hid : t.op.target = id
      · subst hid
        obtain rfl : sem₀ = sem := Option.some.inj (hknown.symm.trans hsem)
        rw [List.getElem?_set_self (List.getElem?_eq_some_iff.mp hget₀).1] at hget
        obtain rfl := Option.some.inj hget
        have hbefore : holds t.op.target t = true := by simp [holds, hheld]
        have hafter : holds t.op.target t' = false := by simp [holds, hheld']
        rw [hbefore, hafter] at hcount
        have := hs.count _ _ slots₀ hsem hget₀
        simp only [Bool.false_eq_true, if_false, if_true] at hcount
        show slots₀.taken - 1 = _ ∧ slots₀.taken - 1 ≤ slots₀.capacity
        omega
      · have hne : sem ≠ sem₀ := fun heq => hid (hs.channels.apart _ _ sem₀ hknown (heq ▸ hsem))
        rw [List.getElem?_set_ne (Ne.symm hne)] at hget
        have hbefore : holds id t = false := by simp [holds, hid]
        have hafter : holds id t' = false := by simp [holds, hop, hid]
        rw [hbefore, hafter] at hcount
        have := hs.count id sem slots hsem hget
        omega

/-- The channels that the start makes, one for each schedule. -/
theorem channels_start (scheds : List Schedule) (h : Channels w)
    (hempty : ∀ slots ∈ w.slots, slots.taken = 0) :
    Channels (scheds.foldl (SchedWorld.register lib) w) ∧
      ∀ slots ∈ (scheds.foldl (SchedWorld.register lib) w).slots, slots.taken = 0 := by
  induction scheds generalizing w with
  | nil => exact ⟨h, hempty⟩
  | cons sched scheds ih =>
      refine ih (h.open sched.id _ (register_sems sched) (register_slots sched)) ?_
      intro slots hslots
      rw [register_slots, List.mem_append, List.mem_singleton] at hslots
      rcases hslots with hold | rfl
      · exact hempty slots hold
      · rfl

theorem slotInv_init (stored : StoredSchedules lib) : SlotInv lib (init lib stored) := by
  have hnone : Channels { schedules := stored.schedules, runs := stored.runs } := by
    refine ⟨fun id sem hsem => ?_, fun id id' sem hsem _ => ?_⟩
    · simp at hsem
    · simp at hsem
  obtain ⟨hchannels, hempty⟩ := @channels_start lib _ stored.schedules.values hnone (by simp)
  refine ⟨fun t ht => absurd ht List.not_mem_nil, hchannels, fun t ht => absurd ht List.not_mem_nil, ?_⟩
  intro id sem slots _ hget
  have := hempty slots (List.mem_of_getElem? hget)
  exact ⟨this.trans rfl, by omega⟩

theorem slotInv_call {cfg : EngineConfig} (hs : SlotInv lib s) {op : ScheduleOp}
    (h : step lib cfg s (.call op) = some s') : SlotInv lib s' := by
  have hsound := Pool.sound_step (fun op => scheduleOp_alone cfg op) hs.sound h
  obtain rfl := Option.some.inj h
  refine ⟨hsound, hs.channels, fun t ht => ?_, fun id sem slots hsem hget => ?_⟩
  · rcases List.mem_append.mp ht with hold | hnew
    · exact hs.keeps t hold
    · rw [List.mem_singleton.mp hnew]
      exact ⟨fun _ hl => by simp [view, ScheduleLog.view, Prog.Log.account] at hl,
        fun hh => by simp [view, ScheduleLog.view, Prog.Log.account] at hh,
        fun _ _ _ ha => by simp [view, ScheduleLog.view, Prog.Log.account] at ha⟩
  · have hadd : (s.add op (op.body lib cfg)).threads.countP (holds id) = s.holders id := by
      rw [Pool.add, List.countP_append, List.countP_singleton]
      simp [holds, view, ScheduleLog.view, Prog.Log.account, holders]
    show slots.taken = (s.add op (op.body lib cfg)).threads.countP (holds id) ∧ _
    rw [hadd]
    exact hs.count id sem slots hsem hget

theorem slotInv_answer {cfg : EngineConfig} (hs : SlotInv lib s) (hsteady : Steady s (.step i x))
    (h : step lib cfg s (.step i x) = some s') : SlotInv lib s' := by
  have hsound := Pool.sound_step (fun op => scheduleOp_alone cfg op) hs.sound h
  obtain ⟨t, c, k, r, w', ht, -, hprog, hexec, rfl⟩ := Pool.step_step h
  have hmem := List.mem_of_getElem? ht
  have hpermits : permits s c = true := by
    have := hsteady t ht
    rwa [steady, hprog] at this
  have heffect : SlotEffect s t.op w' (view t) ((view t).add c r) :=
    slotEffect (hs.sound.allowed ht hprog) hpermits hexec
  refine ⟨hsound, channels_effect hs.channels heffect, fun u hu => ?_, fun id sem slots hsem hget => ?_⟩
  · rcases List.mem_or_eq_of_mem_set hu with hold | rfl
    · exact keeps_effect hs heffect hold
    · have hmoved := keeps_moved hs hmem heffect
      exact hmoved
  · have hop : (t.advance c r (k r)).op = t.op := rfl
    exact count_effect hs ht hop heffect hsem hget

theorem slotInv_step {cfg : EngineConfig} (s : SchedSys) (l : SchedLabel) (s' : SchedSys)
    (hs : SlotInv lib s) (hsteady : Steady s l) (h : step lib cfg s l = some s') :
    SlotInv lib s' := by
  cases l with
  | call op => exact slotInv_call hs h
  | step i x => exact slotInv_answer hs hsteady h
  | env e => exact e.elim
  | restart op => exact hsteady.elim

/-- **Fires keep to the limit** in every run in which a schedule is registered and
unregistered only between its fires, and no fire takes a slot of a channel with more room
than the stored limit. -/
theorem fires_limited (lib : CronLib) (cfg : EngineConfig) (stored : StoredSchedules lib)
    (ls : List SchedLabel) (s : SchedSys)
    (hsteady : Run.Guarded (step lib cfg) Steady (init lib stored) ls)
    (h : Run.exec (step lib cfg) (init lib stored) ls = some s) : Limited s :=
  (Run.exec_invariant (SlotInv lib) slotInv_step ls _ s (slotInv_init stored) hsteady h).limited

/-! ### Runs -/

/-- A fire, up to the action if it has a slot. -/
def firing (place : Nat) (time : Nat) : List SchedLabel :=
  .call (.fire "sched-1" time "scheduler") :: answers place 7

/-- The second of two fires finds no slot. -/
theorem fires_limited_overlapping :
    ∃ s, Run.exec (step plainLib {}) (init plainLib oneStored) (firing 0 100 ++ firing 1 160) = some s ∧
      s.holders "sched-1" = 1 ∧ Limited s := by
  have hrun : (Run.exec (step plainLib {}) (init plainLib oneStored)
      (firing 0 100 ++ firing 1 160)).any (fun s => s.holders "sched-1" = 1) = true := by
    decide +kernel
  obtain ⟨s, hs, hone⟩ := (Option.any_eq_true _ _).mp hrun
  exact ⟨s, hs, of_decide_eq_true hone,
    fires_limited plainLib {} oneStored (firing 0 100 ++ firing 1 160) s (by decide +kernel) hs⟩

/-- A patch of something else than the limit, while a fire holds the only slot. -/
def patchInSlot : List SchedLabel :=
  firing 0 100 ++ .call (.update "sched-1" { retentionCount := some 3 }) :: answers 1 6 ++ firing 2 160

/-- The registration made a new channel, so the next fire runs beside the first. -/
theorem limit_exceeded :
    ∃ s, Run.exec (step plainLib {}) (init plainLib oneStored) patchInSlot = some s ∧
      s.holders "sched-1" = 2 ∧ s.world.limit "sched-1" = 1 ∧ ¬ Limited s := by
  have hrun : (Run.exec (step plainLib {}) (init plainLib oneStored) patchInSlot).any (fun s =>
      s.holders "sched-1" = 2 && s.world.limit "sched-1" = 1 &&
        s.threads.any (fun t => t.op.target = "sched-1" && (view t).held = some ⟨1, 1⟩) &&
        s.threads.all (fun u => (view u).held.all (·.number ≤ 1))) = true := by decide +kernel
  obtain ⟨s, hs, h⟩ := (Option.any_eq_true _ _).mp hrun
  simp only [Bool.and_eq_true, decide_eq_true_eq, List.any_eq_true, List.all_eq_true] at h
  obtain ⟨⟨⟨htwo, hlimit⟩, t, ht, htarget, hheld⟩, hlast⟩ := h
  refine ⟨s, hs, htwo, hlimit, fun hlimited => ?_⟩
  have := hlimited t ht ⟨1, 1⟩ hheld fun u hu _ b hb => by
    have := hlast u hu
    rw [hb, Option.all_some, decide_eq_true_eq] at this
    exact this
  rw [htarget, htwo] at this
  exact absurd this (by decide)

end SchedSys

end VMSmith
