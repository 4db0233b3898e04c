/-
Whose samples the collector takes them for.

A sample is right when the store had its domain's name under the VM it is appended to, when
it was fetched.  The collector never checks that a cached name still is the VM's, so what
matters is what the caches say of a name when its domain is fetched: `Inv` carries that to
the moment the sample is taken, over a listing that is made in between.

What the caches say goes wrong only when a VM is created under a name they still know.  That
is the second invariant, `Agrees`: whatever is known of a name is the ID of the VM that has
it, if one has.
-/
import VMSmith.Lib.Run
import VMSmith.Metrics.Sweeps

namespace VMSmith.Metrics

/-- A listing has a name only under IDs that are stored with it. -/
theorem nameMap_some {vms : StoredNames} {name id : String} (h : nameMap vms name = some id) :
    vms.get? id = some name := by
  have hmem : ∀ entries : List (String × String), ∀ cache : String → Option String,
      (entries.foldl (fun cache vm => Function.update cache vm.2 (some vm.1)) cache :
        String → Option String) name = some id →
        cache name = some id ∨ (id, name) ∈ entries := by
    intro entries
    induction entries with
    | nil => intro cache h; exact .inl h
    | cons vm rest ih =>
        intro cache h
        rw [List.foldl_cons] at h
        rcases ih _ h with hcache | hrest
        · by_cases hname : name = vm.2
          · rw [hname, Function.update_self] at hcache
            rw [hname, ← Option.some.inj hcache]
            exact .inr List.mem_cons_self
          · rw [Function.update_of_ne hname] at hcache
            exact .inl hcache
        · exact .inr (List.mem_cons_of_mem _ hrest)
  rcases hmem vms.entries _ h with hnone | hentry
  · exact absurd hnone (by simp)
  · exact Bucket.mem_entries.mp hentry

namespace SweepSys

/-- The resolver's listing serves, and has the name under the ID. -/
def Listed (s : SweepSys) (name id : String) : Prop :=
  s.resolver.fresh s.clock = true ∧ s.resolver.cached name = some id

/-- The ID is known of the name without a look at the store. -/
def Knows (s : SweepSys) (name id : String) : Prop :=
  s.manager.vmNames name = some id ∨ s.Listed name id

/-- The ID is what a sample of the name would be appended to without a look at the store. -/
def GoesBy (s : SweepSys) (name id : String) : Prop :=
  s.manager.vmNames name = some id ∨ s.manager.vmNames name = none ∧ s.Listed name id

/-- A sample of the name has been fetched and not taken. -/
def InFlight (s : SweepSys) (name : String) : Prop :=
  ∃ sweep, s.sweep = some sweep ∧ ∃ ds ∈ sweep.remaining, ds.name = name

/-- Where the store cannot be listed, the old listing has the sample's name as the store had it
when the sample was fetched. -/
def OldListingServes (s : SweepSys) : Prop :=
  ∀ sweep ds rest, s.sweep = some sweep → sweep.remaining = ds :: rest →
    s.manager.vmNames ds.name = none → s.resolver.fresh s.clock = false →
      ∀ id, s.resolver.cached ds.name = some id → sweep.stored.get? id = some ds.name

/-- The condition on a step: what the caches have of a name that is fetched is what the store
has, and no VM is created under a name while a sample of it waits. -/
def Current (s : SweepSys) : SweepLabel → Prop
  | .create _ name => ¬ s.InFlight name
  | .fetch samples => ∀ ds ∈ samples, ∀ id, s.GoesBy ds.name id → s.vms.get? id = some ds.name
  | .record listable => listable = false → s.OldListingServes
  | _ => True

/-- What keeps a step so: no VM is created under a name that is taken or still known, and a
domain whose name is known is that of a stored VM. -/
def Clean (s : SweepSys) : SweepLabel → Prop
  | .create _ name =>
      ¬ s.InFlight name ∧ (∀ id, s.vms.get? id ≠ some name) ∧ ∀ id, ¬ s.Knows name id
  | .fetch samples => ∀ ds ∈ samples, (∃ id, s.Knows ds.name id) → ∃ id, s.vms.get? id = some ds.name
  | .record listable => listable = false → s.OldListingServes
  | _ => True

variable {s s' : SweepSys}

theorem GoesBy.knows {name id : String} (h : s.GoesBy name id) : s.Knows name id := by
  rcases h with hname | ⟨-, hlisted⟩
  · exact .inl hname
  · exact .inr hlisted

/-! ### What a step can do -/

section Record

variable {sweep : Sweep} {ds : DomainSample} {rest : List DomainSample} {listable : Bool}

/-- What is looked up for a sample comes from the caches, or from the store. -/
theorem resolve_some {name id : String}
    (h : (s.collector listable).resolveVMID name = some id) :
    s.GoesBy name id ∨ s.vms.get? id = some name ∨
      listable = false ∧ s.manager.vmNames name = none ∧ s.resolver.fresh s.clock = false ∧
        s.resolver.cached name = some id := by
  unfold LibvirtMetricsManager.resolveVMID at h
  have hnames : (s.collector listable).vmNames name = s.manager.vmNames name := rfl
  rw [hnames] at h
  cases hname : s.manager.vmNames name with
  | some known =>
      rw [hname] at h
      exact .inl (.inl (hname.trans h))
  | none =>
      rw [hname] at h
      change (s.resolver.nameToID (s.listing listable) s.clock name).1 = some id at h
      unfold StoreNameResolver.nameToID at h
      by_cases hfresh : s.resolver.fresh s.clock = true
      · rw [if_pos hfresh] at h
        exact .inl (.inr ⟨hname, hfresh, h⟩)
      · rw [if_neg hfresh] at h
        cases listable with
        | true => exact .inr (.inl (nameMap_some h))
        | false => exact .inr (.inr ⟨rfl, rfl, by simpa using hfresh, h⟩)

/-- A sample that is taken. -/
theorem step_record (h : s.step (.record listable) = some s') :
    ∃ sweep ds rest, s.sweep = some sweep ∧ sweep.remaining = ds :: rest ∧
      s'.vms = s.vms ∧ s'.clock = s.clock ∧ s'.resolver = s.resolverAfter listable ds.name ∧
      (∃ seen, s'.sweep = some { sweep with remaining := rest, seen }) ∧
      s'.manager = (LibvirtMetricsManager.processSample sweep.now (s.collector listable, sweep.seen)
        ds).1 ∧
      s'.appended = s.appended ++ ((s.collector listable).resolveVMID ds.name).toList.map fun id =>
        ⟨id, ds, sweep.stored⟩ := by
  unfold step at h
  cases hsweep : s.sweep with
  | none =>
      rw [hsweep] at h
      exact absurd h (by simp)
  | some sweep =>
      rw [hsweep] at h
      dsimp only at h
      cases hremaining : sweep.remaining with
      | nil =>
          rw [hremaining] at h
          exact absurd h (by simp)
      | cons ds rest =>
          rw [hremaining] at h
          rw [← Option.some.inj h]
          exact ⟨sweep, ds, rest, rfl, hremaining, rfl, rfl, rfl, ⟨_, rfl⟩, rfl, rfl⟩

end Record

/-- What the collector has of a name after a sample is taken, it had or has just looked up. -/
theorem vmNames_processSample {m : LibvirtMetricsManager} {seen : List String} {now : ℤ}
    {ds : DomainSample} {name id : String}
    (h : (LibvirtMetricsManager.processSample now (m, seen) ds).1.vmNames name = some id) :
    m.vmNames name = some id ∨ name = ds.name ∧ m.resolveVMID ds.name = some id := by
  unfold LibvirtMetricsManager.processSample at h
  dsimp only at h
  cases hid : m.resolveVMID ds.name with
  | none =>
      rw [hid] at h
      exact .inl h
  | some known =>
      rw [hid] at h
      change Function.update m.vmNames ds.name (some known) name = some id at h
      by_cases hname : name = ds.name
      · rw [hname, Function.update_self] at h
        exact .inr ⟨hname, h⟩
      · rw [Function.update_of_ne hname] at h
        exact .inl h

/-- It forgets none. -/
theorem vmNames_processSample_keeps {m : LibvirtMetricsManager} {seen : List String} {now : ℤ}
    {ds : DomainSample} {name : String}
    (h : (LibvirtMetricsManager.processSample now (m, seen) ds).1.vmNames name = none) :
    m.vmNames name = none := by
  cases hname : m.vmNames name with
  | none => rfl
  | some id =>
      exfalso
      unfold LibvirtMetricsManager.processSample at h
      dsimp only at h
      cases hid : m.resolveVMID ds.name with
      | none =>
          rw [hid] at h
          exact absurd (hname.symm.trans h) (by simp)
      | some known =>
          rw [hid] at h
          change Function.update m.vmNames ds.name (some known) name = none at h
          by_cases hsame : name = ds.name
          · rw [hsame, Function.update_self] at h
            exact absurd h (by simp)
          · rw [Function.update_of_ne hsame, hname] at h
            exact absurd h (by simp)

/-- What the listing says after a name was looked up, it said before or the store does. -/
theorem listed_resolverAfter {listable : Bool} {looked name id : String} {t : SweepSys}
    (hresolver : t.resolver = s.resolverAfter listable looked) (hclock : t.clock = s.clock)
    (h : t.Listed name id) : s.Listed name id ∨ s.vms.get? id = some name := by
  obtain ⟨hfresh, hcached⟩ := h
  rw [hresolver] at hfresh hcached
  rw [hclock] at hfresh
  unfold resolverAfter at hfresh hcached
  cases hname : s.manager.vmNames looked with
  | some known =>
      rw [hname] at hfresh hcached
      exact .inl ⟨hfresh, hcached⟩
  | none =>
      rw [hname] at hfresh hcached
      unfold StoreNameResolver.nameToID at hfresh hcached
      by_cases hbefore : s.resolver.fresh s.clock = true
      · rw [if_pos hbefore] at hcached
        exact .inl ⟨hbefore, hcached⟩
      · rw [if_neg hbefore] at hfresh hcached
        cases listable with
        | true => exact .inr (nameMap_some hcached)
        | false => exact absurd hfresh hbefore

/-- A history changes in two ways: its VM is evicted, or a sample is appended to it. -/
theorem step_history {l : SweepLabel} (hstep : s.step l = some s') (vmID : String) :
    s'.manager.ringOf vmID = s.manager.ringOf vmID ∨ s'.manager.rings vmID = none ∨
      ∃ a m, a.vmID = vmID ∧ s'.appended = s.appended ++ [a] ∧
        s'.manager.ringOf vmID = (s.manager.ringOf vmID).push m := by
  cases l with
  | tick d =>
      rw [← Option.some.inj hstep]
      exact .inl rfl
  | create id name =>
      unfold step at hstep
      dsimp only at hstep
      split at hstep
      · rw [← Option.some.inj hstep]
        exact .inl rfl
      · exact absurd hstep (by simp)
  | delete id =>
      rw [← Option.some.inj hstep]
      exact .inl rfl
  | fetch samples =>
      unfold step at hstep
      dsimp only at hstep
      split at hstep
      · rw [← Option.some.inj hstep]
        exact .inl rfl
      · exact absurd hstep (by simp)
  | record listable =>
      obtain ⟨sweep, ds, rest, -, -, -, -, -, -, hmanager, happended⟩ := step_record hstep
      unfold LibvirtMetricsManager.processSample at hmanager
      dsimp only at hmanager
      cases hid : (s.collector listable).resolveVMID ds.name with
      | none =>
          rw [hid] at hmanager
          rw [hmanager]
          exact .inl rfl
      | some id =>
          rw [hid] at hmanager happended
          dsimp only at hmanager
          by_cases hvm : vmID = id
          · have hring : s'.manager.ringOf vmID = (s.manager.ringOf vmID).push
                (measure (s.manager.prev vmID) ds sweep.now).1 := by
              rw [hmanager, hvm]
              exact LibvirtMetricsManager.ringOf_recordSample _ ds sweep.now
            exact .inr (.inr ⟨⟨id, ds, sweep.stored⟩, _, hvm.symm, happended, hring⟩)
          · rw [hmanager]
            exact .inl (LibvirtMetricsManager.ringOf_recordSample_other _ ds sweep.now hvm)
  | prune =>
      unfold step at hstep
      dsimp only at hstep
      split at hstep
      · rename_i sweep hsweep
        split at hstep
        · rw [← Option.some.inj hstep]
          by_cases hgone : s.manager.evicts sweep.seen sweep.now vmID = true
          · exact .inr (.inl (if_pos hgone))
          · refine .inl ?_
            have hring : (s.manager.prune sweep.seen sweep.now).rings vmID = s.manager.rings vmID :=
              if_neg hgone
            unfold LibvirtMetricsManager.ringOf
            dsimp only
            rw [hring]
            rfl
        · exact absurd hstep (by simp)
      · exact absurd hstep (by simp)

/-! ### What is appended -/

/-- Every sample so far is right, and so is every ID that one still to be taken may be appended
to. -/
structure Inv (s : SweepSys) : Prop where
  right : ∀ a ∈ s.appended, a.Right
  flight : ∀ sweep, s.sweep = some sweep → ∀ ds ∈ sweep.remaining, ∀ id,
    s.GoesBy ds.name id ∨ s.vms.get? id = some ds.name → sweep.stored.get? id = some ds.name

/-- The ID a sample is appended to is right. -/
theorem Inv.resolved (h : s.Inv) {sweep : Sweep} {ds : DomainSample} {rest : List DomainSample}
    {listable : Bool} (hsweep : s.sweep = some sweep) (hremaining : sweep.remaining = ds :: rest)
    (hguard : listable = false → s.OldListingServes) {id : String}
    (hid : (s.collector listable).resolveVMID ds.name = some id) :
    sweep.stored.get? id = some ds.name := by
  have hmem : ds ∈ sweep.remaining := by
    rw [hremaining]
    exact List.mem_cons_self
  rcases resolve_some hid with hgoes | hstored | ⟨hlist, hname, hfresh, hcached⟩
  · exact h.flight sweep hsweep ds hmem id (.inl hgoes)
  · exact h.flight sweep hsweep ds hmem id (.inr hstored)
  · exact hguard hlist sweep ds rest hsweep hremaining hname hfresh id hcached

/-- A step that makes nothing known and stores nothing new keeps the invariant. -/
theorem Inv.of_less (h : s.Inv) (hsweep : s'.sweep = s.sweep) (happended : s'.appended = s.appended)
    (hless : ∀ name id, s.InFlight name → s'.GoesBy name id ∨ s'.vms.get? id = some name →
      s.GoesBy name id ∨ s.vms.get? id = some name) : s'.Inv := by
  refine ⟨?_, ?_⟩
  · rw [happended]
    exact h.right
  · intro sweep hs ds hds id hid
    rw [hsweep] at hs
    exact h.flight sweep hs ds hds id (hless ds.name id ⟨sweep, hs, ds, hds, rfl⟩ hid)

theorem fresh_earlier {r : StoreNameResolver} {now : ℤ} {d : ℕ} (h : r.fresh (now + d) = true) :
    r.fresh now = true := by
  unfold StoreNameResolver.fresh at h ⊢
  simp only [Bool.and_eq_true, decide_eq_true_eq] at h ⊢
  exact ⟨h.1, by omega⟩

theorem inv_record (h : s.Inv) {listable : Bool} (hguard : listable = false → s.OldListingServes)
    (hstep : s.step (.record listable) = some s') : s'.Inv := by
  obtain ⟨sweep, ds, rest, hsweep, hremaining, hvms, hclock, hresolver, ⟨seen, hsweep'⟩, hmanager,
    happended⟩ := step_record hstep
  refine ⟨?_, ?_⟩
  · intro a ha
    rw [happended, List.mem_append] at ha
    rcases ha with ha | ha
    · exact h.right a ha
    · obtain ⟨id, hid, rfl⟩ := List.mem_map.mp ha
      exact h.resolved hsweep hremaining hguard (Option.mem_toList.mp hid)
  · intro sweep₁ hsweep₁ ds₁ hds₁ id hid
    rw [hsweep'] at hsweep₁
    obtain rfl := Option.some.inj hsweep₁
    have hmem : ds₁ ∈ sweep.remaining := by
      rw [hremaining]
      exact List.mem_cons_of_mem _ hds₁
    have hflight := h.flight sweep hsweep ds₁ hmem id
    rcases hid with (hname | ⟨hnone, hlisted⟩) | hstored
    · rw [hmanager] at hname
      rcases vmNames_processSample hname with hbefore | ⟨hsame, hlooked⟩
      · exact hflight (.inl (.inl hbefore))
      · -- a second sample of the name that was just looked up
        rw [hsame]
        exact h.resolved hsweep hremaining hguard hlooked
    · rw [hmanager] at hnone
      rcases listed_resolverAfter hresolver hclock hlisted with hbefore | hstored
      · have hunknown : (s.collector listable).vmNames ds₁.name = none :=
          vmNames_processSample_keeps hnone
        exact hflight (.inl (.inr ⟨hunknown, hbefore⟩))
      · exact hflight (.inr hstored)
    · rw [hvms] at hstored
      exact hflight (.inr hstored)

/-- **Steps that meet the condition keep the invariant.** -/
theorem inv_step (l : SweepLabel) (h : s.Inv) (hguard : s.Current l) (hstep : s.step l = some s') :
    s'.Inv := by
  cases l with
  | tick d =>
      rw [← Option.some.inj hstep]
      refine h.of_less rfl rfl ?_
      rintro name id - ((hname | ⟨hnone, hfresh, hcached⟩) | hstored)
      · exact .inl (.inl hname)
      · exact .inl (.inr ⟨hnone, fresh_earlier hfresh, hcached⟩)
      · exact .inr hstored
  | create id name =>
      unfold step at hstep
      dsimp only at hstep
      split at hstep
      · rw [← Option.some.inj hstep]
        refine h.of_less rfl rfl ?_
        rintro other id' hflight (hgoes | hstored)
        · exact .inl hgoes
        · refine .inr ?_
          by_cases hid : id' = id
          · -- the VM that is created is none of those in flight
            exfalso
            subst hid
            rw [Bucket.get?_put_self] at hstored
            obtain rfl := Option.some.inj hstored
            exact hguard hflight
          · rw [Bucket.get?_put_ne _ _ hid] at hstored
            exact hstored
      · exact absurd hstep (by simp)
  | delete id =>
      rw [← Option.some.inj hstep]
      refine h.of_less rfl rfl ?_
      rintro name id' - (hgoes | hstored)
      · exact .inl hgoes
      · exact .inr (Bucket.mem_erase.mp hstored).2
  | fetch samples =>
      unfold step at hstep
      dsimp only at hstep
      split at hstep
      · rw [← Option.some.inj hstep]
        refine ⟨h.right, ?_⟩
        intro sweep hsweep ds hds id hid
        rw [← Option.some.inj hsweep] at hds ⊢
        rcases hid with hgoes | hstored
        · exact hguard ds hds id hgoes
        · exact hstored
      · exact absurd hstep (by simp)
  | record listable => exact inv_record h hguard hstep
  | prune =>
      unfold step at hstep
      dsimp only at hstep
      split at hstep
      · split at hstep
        · rw [← Option.some.inj hstep]
          refine ⟨h.right, ?_⟩
          intro sweep hsweep
          exact absurd hsweep (by simp)
        · exact absurd hstep (by simp)
      · exact absurd hstep (by simp)

/-! ### What is known -/

/-- Names are taken once, and what is known of a name is the ID of the VM that has it. -/
structure Agrees (s : SweepSys) : Prop where
  inv : s.Inv
  unique : ∀ name id id', s.vms.get? id = some name → s.vms.get? id' = some name → id' = id
  fetched : ∀ sweep, s.sweep = some sweep → ∀ name id id',
    sweep.stored.get? id = some name → sweep.stored.get? id' = some name → id' = id
  knows : ∀ name id id', s.Knows name id → s.vms.get? id' = some name → id' = id

theorem Agrees.current (l : SweepLabel) (h : s.Agrees) (hclean : s.Clean l) : s.Current l := by
  cases l with
  | tick d => exact trivial
  | create id name => exact hclean.1
  | delete id => exact trivial
  | fetch samples =>
      intro ds hds id hgoes
      obtain ⟨id', hstored⟩ := hclean ds hds ⟨id, hgoes.knows⟩
      rw [← h.knows ds.name id id' hgoes.knows hstored]
      exact hstored
  | record listable => exact hclean
  | prune => exact trivial

theorem agrees_record (h : s.Agrees) {listable : Bool} (hguard : listable = false → s.OldListingServes)
    (hstep : s.step (.record listable) = some s') : s'.Agrees := by
  obtain ⟨sweep, ds, rest, hsweep, hremaining, hvms, hclock, hresolver, ⟨seen, hsweep'⟩, hmanager,
    -⟩ := step_record hstep
  have hmem : ds ∈ sweep.remaining := by
    rw [hremaining]
    exact List.mem_cons_self
  refine ⟨inv_record h.inv hguard hstep, ?_, ?_, ?_⟩
  · rw [hvms]
    exact h.unique
  · intro sweep₁ hsweep₁
    rw [hsweep'] at hsweep₁
    rw [← Option.some.inj hsweep₁]
    exact h.fetched sweep hsweep
  · intro name id id' hknows hstored
    rw [hvms] at hstored
    rcases hknows with hname | hlisted
    · rw [hmanager] at hname
      rcases vmNames_processSample hname with hbefore | ⟨hsame, hlooked⟩
      · exact h.knows name id id' (.inl hbefore) hstored
      · -- the store still has the name as it had it when the sample was fetched
        subst hsame
        have hnow := h.inv.flight sweep hsweep ds hmem id' (.inr hstored)
        have hthen := h.inv.resolved hsweep hremaining hguard hlooked
        exact h.fetched sweep hsweep ds.name id id' hthen hnow
    · rcases listed_resolverAfter hresolver hclock hlisted with hbefore | hlisted
      · exact h.knows name id id' (.inr hbefore) hstored
      · exact h.unique name id id' hlisted hstored

/-- **Clean steps keep what is known true.** -/
theorem agrees_step (l : SweepLabel) (h : s.Agrees) (hclean : s.Clean l)
    (hstep : s.step l = some s') : s'.Agrees := by
  have hinv := inv_step l h.inv (h.current l hclean) hstep
  cases l with
  | tick d =>
      rw [← Option.some.inj hstep] at hinv ⊢
      refine ⟨hinv, h.unique, h.fetched, ?_⟩
      rintro name id id' (hname | ⟨hfresh, hcached⟩) hstored
      · exact h.knows name id id' (.inl hname) hstored
      · exact h.knows name id id' (.inr ⟨fresh_earlier hfresh, hcached⟩) hstored
  | create id name =>
      unfold step at hstep
      dsimp only at hstep
      split at hstep
      · rw [← Option.some.inj hstep] at hinv ⊢
        obtain ⟨-, hfree, hunknown⟩ := hclean
        have hput : ∀ {i n}, (s.vms.put id name).get? i = some n →
            i = id ∧ n = name ∨ s.vms.get? i = some n := by
          intro i n hi
          by_cases hsame : i = id
          · subst hsame
            rw [Bucket.get?_put_self] at hi
            exact .inl ⟨rfl, (Option.some.inj hi).symm⟩
          · rw [Bucket.get?_put_ne _ _ hsame] at hi
            exact .inr hi
        refine ⟨hinv, ?_, h.fetched, ?_⟩
        · intro n i i' hi hi'
          rcases hput hi with ⟨rfl, rfl⟩ | hold
          · rcases hput hi' with ⟨rfl, -⟩ | hi'
            · rfl
            · exact absurd hi' (hfree i')
          · rcases hput hi' with ⟨-, rfl⟩ | hi'
            · exact (hfree i hold).elim
            · exact h.unique n i i' hold hi'
        · intro n i i' hknows hi'
          rcases hput hi' with ⟨-, rfl⟩ | hi'
          · exact absurd hknows (hunknown i)
          · exact h.knows n i i' hknows hi'
      · exact absurd hstep (by simp)
  | delete id =>
      rw [← Option.some.inj hstep] at hinv ⊢
      refine ⟨hinv, ?_, h.fetched, ?_⟩
      · intro n i i' hi hi'
        exact h.unique n i i' (Bucket.mem_erase.mp hi).2 (Bucket.mem_erase.mp hi').2
      · intro n i i' hknows hi'
        exact h.knows n i i' hknows (Bucket.mem_erase.mp hi').2
  | fetch samples =>
      unfold step at hstep
      dsimp only at hstep
      split at hstep
      · rw [← Option.some.inj hstep] at hinv ⊢
        refine ⟨hinv, h.unique, ?_, h.knows⟩
        intro sweep hsweep
        rw [← Option.some.inj hsweep]
        exact h.unique
      · exact absurd hstep (by simp)
  | record listable => exact agrees_record h hclean hstep
  | prune =>
      unfold step at hstep
      dsimp only at hstep
      split at hstep
      · split at hstep
        · rw [← Option.some.inj hstep] at hinv ⊢
          refine ⟨hinv, h.unique, fun sweep hsweep => absurd hsweep (by simp), ?_⟩
          rintro n i i' (hname | hlisted) hi'
          · exact h.knows n i i' (.inl (Option.filter_eq_some_iff.mp hname).1) hi'
          · exact h.knows n i i' (.inr hlisted) hi'
        · exact absurd hstep (by simp)
      · exact absurd hstep (by simp)

/-! ### Runs -/

variable (interval histSize : ℤ)

theorem inv_init : (init interval histSize).Inv :=
  ⟨fun a ha => absurd ha List.not_mem_nil, fun sweep hsweep => absurd hsweep (by simp [init])⟩

theorem agrees_init : (init interval histSize).Agrees := by
  refine ⟨inv_init interval histSize, ?_, ?_, ?_⟩
  · intro name id id' h
    exact absurd h (by simp [init])
  · intro sweep hsweep
    exact absurd hsweep (by simp [init])
  · intro name id id' _ h
    exact absurd h (by simp [init])

/-- **Whose the samples are.**  In a run whose steps meet the condition every sample was taken
from a domain whose name the store had under the VM.  And a run meets it if no VM is created under
a name that is taken or still known, and no domain is fetched under a known name that no stored VM
has. -/
theorem appended_right {ls : List SweepLabel} {s : SweepSys}
    (hrun : Run.exec step (init interval histSize) ls = some s) :
    (Run.Guarded step Current (init interval histSize) ls → ∀ a ∈ s.appended, a.Right) ∧
    (Run.Guarded step Clean (init interval histSize) ls →
      Run.Guarded step Current (init interval histSize) ls) := by
  refine ⟨?_, ?_⟩
  · intro hguarded
    have hinv := Run.exec_invariant Inv (fun s l s' hs hl hstep => inv_step l hs hl hstep) ls _ s
      (inv_init interval histSize) hguarded hrun
    exact hinv.right
  · exact Run.guarded_of_invariant Agrees (fun s l s' hs hl hstep => agrees_step l hs hl hstep)
      (fun s l hs hl => hs.current l hl) ls _ (agrees_init interval histSize)

/-- A VM is created and swept. -/
theorem appended_right_once :
    ∃ s, Run.exec step (init 0 0) [.create "vm-1" "web", .fetch [{ name := "web" }], .record true,
        .prune] = some s ∧
      s.appended.map (·.vmID) = ["vm-1"] ∧ ∀ a ∈ s.appended, a.Right := by
  have hclean : Run.Guarded step Clean (init 0 0) [.create "vm-1" "web",
      .fetch [{ name := "web" }], .record true, .prune] := by
    refine ⟨⟨?_, ?_, ?_⟩, fun s₁ h₁ => ⟨?_, fun s₂ _ => ⟨?_, fun s₃ _ => ⟨trivial, fun _ _ => trivial⟩⟩⟩⟩
    · rintro ⟨sweep, hsweep, -⟩
      exact absurd hsweep (by simp [init])
    · intro id
      simp [init]
    · rintro id (hname | ⟨hfresh, -⟩)
      · exact absurd hname (by simp [init, newManagerForProvider])
      · exact absurd hfresh (by simp [init, StoreNameResolver.fresh])
    · intro ds hds _
      refine ⟨"vm-1", ?_⟩
      rw [← Option.some.inj h₁, List.mem_singleton.mp hds]
      exact Bucket.get?_put_self _ _ _
    · intro hlist
      exact absurd hlist (by decide)
  have hrun : ∃ s, Run.exec step (init 0 0) [.create "vm-1" "web", .fetch [{ name := "web" }],
      .record true, .prune] = some s ∧ s.appended.map (·.vmID) = ["vm-1"] := ⟨_, rfl, rfl⟩
  obtain ⟨s, hrun, hids⟩ := hrun
  obtain ⟨hright, hcurrent⟩ := appended_right 0 0 hrun
  exact ⟨s, hrun, hids, hright (hcurrent hclean)⟩

/-- A VM is swept and deleted, and another is created under its name. -/
def reuse : List SweepLabel :=
  [.create "vm-1" "web", .fetch [{ name := "web" }], .record true, .prune, .delete "vm-1",
    .create "vm-2" "web", .fetch [{ name := "web" }], .record true]

/-- The second VM's sample is appended to the history of the first. -/
theorem appended_reuse :
    ¬ ∀ interval histSize ls s, Run.exec step (init interval histSize) ls = some s →
      ∀ a ∈ s.appended, a.Right := by
  intro h
  have hrun : ∃ s, Run.exec step (init 0 0) reuse = some s ∧
      ⟨"vm-1", { name := "web" }, Bucket.empty.put "vm-2" "web"⟩ ∈ s.appended := by
    refine ⟨_, rfl, ?_⟩
    exact List.mem_cons_of_mem _ List.mem_cons_self
  obtain ⟨s, hrun, hmem⟩ := hrun
  have hright := h 0 0 reuse s hrun _ hmem
  unfold Appended.Right at hright
  dsimp only at hright
  rw [Bucket.get?_put_ne _ _ (by decide)] at hright
  exact absurd hright (by simp)

end SweepSys

end VMSmith.Metrics
