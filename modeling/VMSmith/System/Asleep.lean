/-
Domains by name, and what wakes them.

Every UUID has one name for ever, and no two domains have the same name, so a name stands for
a domain wherever it is there.  A domain that is shut off is woken by a start or by a return to
a snapshot, and by nothing else; a domain that appears is shut off.
-/
import VMSmith.System.Shape
import Mathlib.Logic.Function.Basic

namespace VMSmith

/-- The commands that may set a domain going that is shut off. -/
def VirtCmd.Wakes (u : Nat) : VirtCmd → Prop
  | .create dom | .revertToSnapshot dom _ => dom = u
  | _ => False

namespace VirtState

variable {s s' : VirtState} {x : Choice} {d : Domain} {u : Nat} {name : String}

/-- The domain of this name, if there is one, is shut off. -/
def asleep (s : VirtState) (name : String) : Bool := (s.findName? name).all fun d => d.state = .shutoff

/-! ### One domain -/

theorem shape_eq_none (h : ∀ p ∈ s.idents, p.1 ≠ u) : s.shape u = none := by
  unfold shape
  cases hd : s.find? u with
  | none => rfl
  | some d => exact absurd rfl (h _ (find?_idents hd))

theorem mem_idents_of_shape {a : DomainShape} (h : s.shape u = some a) : (u, a.name) ∈ s.idents := by
  obtain ⟨d, hd, rfl⟩ := find?_of_shape h
  exact find?_idents hd

theorem shape_remove_self (hd : s.find? u = some d) (event : LifecycleEvent) :
    (s.remove d event).shape u = none := by
  refine shape_eq_none fun p hp => ?_
  obtain ⟨e, he, rfl⟩ := List.mem_map.mp hp
  have hne := (List.mem_filter.mp he).2
  rw [decide_eq_true_eq, uuid_of_find? hd] at hne
  exact hne

theorem shape_stop_self {a : DomainShape} (hd : s.find? u = some d) (h : (s.stop d).shape u = some a) :
    a.name = d.name ∧ a.state = .shutoff := by
  unfold stop at h
  split_ifs at h
  · rw [shape_set hd (by exact (uuid_of_find? hd :)), if_pos rfl] at h
    rw [← Option.some.inj h]
    exact ⟨rfl, rfl⟩
  · rw [shape_remove_self hd] at h
    simp at h

theorem shape_undefineDomain_self {a : DomainShape} (hd : s.find? u = some d)
    (h : (s.undefineDomain d).shape u = some a) : a.name = d.name ∧ d.state = a.state := by
  unfold undefineDomain at h
  split_ifs at h
  · rw [shape_remove_self hd] at h
    simp at h
  · rw [shape_set hd (by exact (uuid_of_find? hd :)), if_pos rfl] at h
    rw [← Option.some.inj h]
    exact ⟨rfl, rfl⟩

/-- What one command may make of a domain: it keeps its name, and it sleeps on unless woken. -/
def Calm (c : VirtCmd) (u : Nat) (a a' : DomainShape) : Prop :=
  a'.name = a.name ∧ (a.state = .shutoff → a'.state = .shutoff ∨ c.Wakes u)

theorem calm_onDomain {α : Type} {c : VirtCmd} {a a' : DomainShape} {act : Domain → Except Err (α × VirtState)}
    {r : Except Err α} (ha : s.shape u = some a) (ha' : s'.shape u = some a')
    (h : fallible x s (s.onDomain u act) = some (r, s'))
    (hact : ∀ d v t, s.find? u = some d → d.shape = a → act d = .ok (v, t) → t.shape u = some a' → Calm c u a a') :
    Calm c u a a' := by
  rcases fallible_eq h with ⟨e, -, rfl⟩ | ⟨v, -, hv, -⟩
  · obtain rfl := Option.some.inj (ha.symm.trans ha')
    exact ⟨rfl, fun hoff => .inl hoff⟩
  · obtain ⟨d, hd, hd'⟩ := onDomain_ok hv
    refine hact d v s' hd ?_ hd' ha'
    rw [shape_of_find? hd] at ha
    exact Option.some.inj ha

theorem calm_transition {c : VirtCmd} {a a' : DomainShape} {possible : DomainState → Bool}
    {act : Domain → VirtState} {r : Except Err Unit} (ha : s.shape u = some a) (ha' : s'.shape u = some a')
    (h : fallible x s (s.transition u possible act) = some (r, s'))
    (hact : ∀ d, s.find? u = some d → d.shape = a → possible d.state = true → (act d).shape u = some a' →
      Calm c u a a') : Calm c u a a' := by
  refine calm_onDomain ha ha' h fun d v t hd hda hv ht => ?_
  split_ifs at hv with hpossible
  obtain ⟨-, rfl⟩ := Prod.mk.inj (Except.ok.inj hv)
  exact hact d hd hda hpossible ht

/-- **What one command makes of a domain.** -/
theorem calm_exec {c : VirtCmd} {r : c.Resp} {a a' : DomainShape} (ha : s.shape u = some a)
    (ha' : s'.shape u = some a') (h : s.exec x c = some (r, s')) : Calm c u a a' := by
  by_cases hc : c.Shapes u
  swap
  · rw [shape_exec hc (by rw [ha]; rfl) h] at ha'
    obtain rfl := Option.some.inj (ha.symm.trans ha')
    exact ⟨rfl, fun hoff => .inl hoff⟩
  have hset : ∀ {d : Domain} {st : DomainState} {events : List LifecycleEvent}, s.find? u = some d → d.shape = a →
      (s.set { d with state := st } events).shape u = some a' → a'.name = a.name := by
    intro d st events hd hda ht
    rw [shape_set hd (by exact (uuid_of_find? hd :)), if_pos rfl] at ht
    rw [← Option.some.inj ht, ← hda]
    rfl
  cases c with
  | create dom =>
      obtain rfl : dom = u := hc
      exact calm_transition ha ha' h fun d hd hda _ ht => ⟨hset hd hda ht, fun _ => .inr rfl⟩
  | suspend dom =>
      obtain rfl : dom = u := hc
      refine calm_transition ha ha' h fun d hd hda hrun ht => ⟨hset hd hda ht, fun hoff => ?_⟩
      have hstate : d.state = a.state := congrArg DomainShape.state hda
      simp [hstate, hoff] at hrun
  | resume dom =>
      obtain rfl : dom = u := hc
      refine calm_transition ha ha' h fun d hd hda hrun ht => ⟨hset hd hda ht, fun hoff => ?_⟩
      have hstate : d.state = a.state := congrArg DomainShape.state hda
      simp [hstate, hoff] at hrun
  | destroy dom =>
      obtain rfl : dom = u := hc
      refine calm_transition ha ha' h fun d hd hda _ ht => ?_
      obtain ⟨hname, hoff⟩ := shape_stop_self hd ht
      exact ⟨hname.trans (congrArg DomainShape.name hda), fun _ => .inl hoff⟩
  | undefineFlags dom | undefine dom =>
      obtain rfl : dom = u := hc
      refine calm_onDomain ha ha' h fun d v t hd hda hv ht => ?_
      split_ifs at hv
      obtain ⟨-, rfl⟩ := Prod.mk.inj (Except.ok.inj hv)
      obtain ⟨hname, hstate⟩ := shape_undefineDomain_self hd ht
      refine ⟨hname.trans (congrArg DomainShape.name hda), fun hoff => .inl ?_⟩
      rw [← hstate, ← hoff]
      exact congrArg DomainShape.state hda
  | waitForShutoff dom =>
      obtain rfl : dom = u := hc
      obtain ⟨d, hd, rfl⟩ := find?_of_shape ha
      simp only [exec, hd] at h
      split_ifs at h
      · rw [← (Prod.mk.inj (Option.some.inj h)).2, ha] at ha'
        rw [← Option.some.inj ha']
        exact ⟨rfl, fun hoff => .inl hoff⟩
      · rw [← (Prod.mk.inj (Option.some.inj h)).2] at ha'
        obtain ⟨hname, hoff⟩ := shape_stop_self hd ha'
        exact ⟨hname, fun _ => .inl hoff⟩
      · rw [← (Prod.mk.inj (Option.some.inj h)).2, ha] at ha'
        rw [← Option.some.inj ha']
        exact ⟨rfl, fun hoff => .inl hoff⟩
  | revertToSnapshot dom snapshot =>
      obtain rfl : dom = u := hc
      refine calm_onDomain ha ha' h fun d v t hd hda hv ht => ?_
      split at hv
      · obtain ⟨-, rfl⟩ := Prod.mk.inj (Except.ok.inj hv)
        rw [shape_set hd (by exact (uuid_of_find? hd :)), if_pos rfl] at ht
        rw [← Option.some.inj ht, ← hda]
        exact ⟨rfl, fun _ => .inr rfl⟩
      · simp at hv
  | domainDefineXML xml =>
      rcases exec_define_known hc ha h with ⟨-, rfl⟩ | ⟨-, -, ht⟩
      · obtain rfl := Option.some.inj (ha.symm.trans ha')
        exact ⟨rfl, fun hoff => .inl hoff⟩
      · rw [← Option.some.inj (ht.symm.trans ha')]
        exact ⟨rfl, fun hoff => .inl hoff⟩
  | _ => exact hc.elim

/-- A definition is of a domain that is there, or of a new one that is shut off. -/
theorem defineXML_ok {xml : DomainXML} {v : Nat} (h : s.defineXML xml = .ok (v, s')) :
    Shrinks s s' ∨ ∃ d : Domain, s'.domains = s.domains ++ [d] ∧ d.name = xml.name ∧ d.state = .shutoff ∧
      d.uuid = xml.uuid.getD s.nextUUID ∧ s.findName? xml.name = none ∧ s'.nextUUID = max s.nextUUID d.uuid + 1 := by
  unfold defineXML at h
  split at h
  next d hd =>
    obtain ⟨y, -, hfind⟩ := Option.bind_eq_some_iff.mp hd
    split_ifs at h
    obtain ⟨-, rfl⟩ := Prod.mk.inj (Except.ok.inj h)
    exact .inl (set_shrinks (by exact (uuid_of_find? hfind ▸ find?_idents hfind :)) _)
  next =>
    split at h
    · simp at h
    next hfree =>
      obtain ⟨-, rfl⟩ := Prod.mk.inj (Except.ok.inj h)
      exact .inr ⟨_, rfl, rfl, rfl, rfl, hfree, rfl⟩

/-- A domain that appears is shut off. -/
theorem shutoff_of_new {c : VirtCmd} {r : c.Resp} {a : DomainShape} (hnone : s.shape u = none)
    (ha : s'.shape u = some a) (h : s.exec x c = some (r, s')) : a.state = .shutoff := by
  have hshrinks : ¬ Shrinks s s' := by
    intro hs
    obtain ⟨e, he, heq⟩ := List.mem_map.mp (hs.idents _ (mem_idents_of_shape ha))
    have hfind := List.find?_eq_none.mp (Option.map_eq_none_iff.mp hnone) e he
    simp [(Prod.mk.inj heq).1] at hfind
  by_cases hc : ∀ xml, c ≠ .domainDefineXML xml
  · exact absurd (exec_shrinks hc h) hshrinks
  obtain ⟨xml, rfl⟩ := not_forall_not.mp hc
  rcases fallible_eq h with ⟨e, -, rfl⟩ | ⟨v, -, hv, -⟩
  · exact absurd (.refl _) hshrinks
  rcases defineXML_ok hv with hs | ⟨d, hdomains, -, hoff, -⟩
  · exact absurd hs hshrinks
  unfold shape find? at ha hnone
  rw [hdomains, List.find?_append, Option.map_eq_none_iff.mp hnone, Option.none_or, List.find?_singleton] at ha
  split_ifs at ha
  · rw [← Option.some.inj ha]
    exact hoff
  · simp at ha

/-! ### Names -/

/-- `f` is the name every UUID has ever had. -/
structure Named (f : Nat → String) (s : VirtState) : Prop where
  below : ∀ p ∈ s.idents, p.1 < s.nextUUID
  name : ∀ p ∈ s.idents, p.2 = f p.1
  unique : ∀ p ∈ s.idents, ∀ q ∈ s.idents, p.2 = q.2 → p.1 = q.1

variable {f : Nat → String}

theorem Named.shrinks (h : Named f s) (hs : Shrinks s s') : Named f s' where
  below p hp := by
    rw [hs.nextUUID]
    exact h.below p (hs.idents p hp)
  name p hp := h.name p (hs.idents p hp)
  unique p hp q hq := h.unique p (hs.idents p hp) q (hs.idents q hq)

/-- One more domain, under a name that is free. -/
theorem Named.add (h : Named f s) {u : Nat} (hname : f u = name) (hu : u < s'.nextUUID)
    (hidents : s'.idents = s.idents ++ [(u, name)]) (hnext : s.nextUUID ≤ s'.nextUUID)
    (hfree : ∀ p ∈ s.idents, p.2 ≠ name) : Named f s' where
  below p hp := by
    rw [hidents, List.mem_append, List.mem_singleton] at hp
    rcases hp with hold | rfl
    · exact Nat.lt_of_lt_of_le (h.below p hold) hnext
    · exact hu
  name p hp := by
    rw [hidents, List.mem_append, List.mem_singleton] at hp
    rcases hp with hold | rfl
    · exact h.name p hold
    · exact hname.symm
  unique p hp q hq heq := by
    rw [hidents, List.mem_append, List.mem_singleton] at hp hq
    rcases hp with hp | rfl <;> rcases hq with hq | rfl
    · exact h.unique p hp q hq heq
    · exact absurd heq (hfree p hp)
    · exact absurd heq.symm (hfree q hq)
    · rfl

/-- UUIDs that have not been given out may still have any name. -/
theorem Named.update (h : Named f s) (name : String) : Named (Function.update f s.nextUUID name) s where
  below := h.below
  name p hp := by
    rw [Function.update_of_ne (Nat.ne_of_lt (h.below p hp))]
    exact h.name p hp
  unique := h.unique

theorem not_taken (h : s.findName? name = none) : ∀ p ∈ s.idents, p.2 ≠ name := by
  intro p hp
  obtain ⟨e, he, rfl⟩ := List.mem_map.mp hp
  simpa using List.find?_eq_none.mp h e he

/-- **Names stay**, if a definition with a UUID that has been given out has its name. -/
theorem Named.exec (h : Named f s) {c : VirtCmd} {r : c.Resp}
    (hc : ∀ xml y, c = .domainDefineXML xml → xml.uuid = some y → y < s.nextUUID ∧ f y = xml.name)
    (hexec : s.exec x c = some (r, s')) :
    ∃ f', (∀ y < s.nextUUID, f' y = f y) ∧ s.nextUUID ≤ s'.nextUUID ∧ Named f' s' := by
  by_cases hdef : ∀ xml, c ≠ .domainDefineXML xml
  · have hs := exec_shrinks hdef hexec
    exact ⟨f, fun _ _ => rfl, hs.nextUUID.symm.le, h.shrinks hs⟩
  obtain ⟨xml, rfl⟩ := not_forall_not.mp hdef
  rcases fallible_eq hexec with ⟨e, -, rfl⟩ | ⟨v, -, hv, -⟩
  · exact ⟨f, fun _ _ => rfl, Nat.le_refl _, h⟩
  rcases defineXML_ok hv with hs | ⟨d, hdomains, hname, -, huuid, hfree, hnext⟩
  · exact ⟨f, fun _ _ => rfl, hs.nextUUID.symm.le, h.shrinks hs⟩
  have hle : s.nextUUID ≤ s'.nextUUID := by omega
  have hadd : ∀ {g}, Named g s → g d.uuid = xml.name → Named g s' := by
    intro g hg hgname
    refine hg.add hgname (by omega) ?_ hle (not_taken hfree)
    rw [idents, hdomains, List.map_append, ← hname]
    rfl
  cases hxml : xml.uuid with
  | none =>
      rw [hxml] at huuid
      refine ⟨_, fun y hy => Function.update_of_ne (Nat.ne_of_lt hy) xml.name f, hle, hadd (h.update xml.name) ?_⟩
      rw [huuid]
      exact Function.update_self ..
  | some y =>
      rw [hxml] at huuid
      refine ⟨f, fun _ _ => rfl, hle, hadd h ?_⟩
      rw [huuid]
      exact (hc xml y rfl hxml).2

/-- The domain of a name is found by its UUID as well. -/
theorem Named.find? (h : Named f s) (hd : s.findName? name = some d) : s.find? d.uuid = some d := by
  have hmem := List.mem_of_find?_eq_some hd
  have hname : d.name = name := by simpa using List.find?_some hd
  have hsame : ∀ e ∈ s.domains, decide (e.uuid = d.uuid) = decide (e.name = name) := by
    intro e he
    have hidents : ∀ e ∈ s.domains, (e.uuid, e.name) ∈ s.idents := fun e he => List.mem_map.mpr ⟨e, he, rfl⟩
    refine decide_eq_decide.mpr ⟨fun hu => ?_, fun hn => ?_⟩
    · rw [← hname, show e.name = f e.uuid from h.name _ (hidents e he),
        show d.name = f d.uuid from h.name _ (hidents d hmem), hu]
    · exact h.unique _ (hidents e he) _ (hidents d hmem) (hn.trans hname.symm)
  unfold VirtState.find?
  rw [← List.head?_filter, List.filter_congr hsame, List.head?_filter]
  exact hd

/-- A domain is the one of its name. -/
theorem Named.findName?_of_shape (h : Named f s) {a : DomainShape} (ha : s.shape u = some a) :
    ∃ d, s.findName? a.name = some d ∧ d.uuid = u ∧ d.shape = a := by
  obtain ⟨e, he, rfl⟩ := find?_of_shape ha
  have hsome : (s.findName? e.name).isSome = true := by
    rw [findName?, List.find?_isSome]
    exact ⟨e, List.mem_of_find?_eq_some he, decide_eq_true rfl⟩
  obtain ⟨d, hd⟩ := Option.isSome_iff_exists.mp hsome
  have hu : d.uuid = u := h.unique _ (findName?_idents hd) _ (find?_idents he) rfl
  have hed := h.find? hd
  rw [hu, he] at hed
  exact ⟨d, hd, hu, by rw [Option.some.inj hed]⟩

theorem Named.asleep_iff (h : Named f s) :
    s.asleep name = true ↔ ∀ u a, s.shape u = some a → a.name = name → a.state = .shutoff := by
  unfold asleep
  constructor
  · intro hall u a ha hname
    obtain ⟨d, hd, -, rfl⟩ := h.findName?_of_shape ha
    rw [← hname, hd, Option.all_some, decide_eq_true_eq] at hall
    exact hall
  · intro hall
    cases hd : s.findName? name with
    | none => rfl
    | some d =>
        rw [Option.all_some, decide_eq_true_eq]
        have hname : d.name = name := by simpa using List.find?_some hd
        exact hall d.uuid d.shape (shape_of_find? (h.find? hd)) hname

/-- **A name sleeps on**, unless its domain is woken. -/
theorem asleep_exec {f' : Nat → String} (h : Named f s) (h' : Named f' s') {c : VirtCmd} {r : c.Resp}
    (hs : s.asleep name = true) (hc : ∀ u a, c.Wakes u → s.shape u = some a → a.name ≠ name)
    (hexec : s.exec x c = some (r, s')) : s'.asleep name = true := by
  rw [h'.asleep_iff]
  intro u a' ha' hname
  cases ha : s.shape u with
  | none => exact shutoff_of_new ha ha' hexec
  | some a =>
      obtain ⟨hkept, hcalm⟩ := calm_exec ha ha' hexec
      have hname' : a.name = name := hkept.symm.trans hname
      rcases hcalm (h.asleep_iff.mp hs u a ha hname') with hoff | hwakes
      · exact hoff
      · exact absurd hname' (hc u a hwakes ha)

/-- A domain that is shut off is the one of its name. -/
theorem Named.asleep_of_shape (h : Named f s) {a : DomainShape} (ha : s.shape u = some a)
    (hname : a.name = name) (hoff : a.state = .shutoff) : s.asleep name = true := by
  rw [h.asleep_iff]
  intro v b hb hbname
  have huv : v = u := h.unique _ (mem_idents_of_shape hb) _ (mem_idents_of_shape ha) (hbname.trans hname.symm)
  rw [huv, ha] at hb
  rw [← Option.some.inj hb]
  exact hoff

/-- A wait that has seen the domain off. -/
theorem exec_waitForShutoff (h : s.exec x (.waitForShutoff u) = some (true, s')) :
    ∃ a, s'.shape u = some a ∧ a.state = .shutoff := by
  simp only [VirtState.exec] at h
  cases hd : s.find? u with
  | none => simp [hd] at h
  | some d =>
      simp only [hd] at h
      split_ifs at h with hoff hflag
      · rw [← (Prod.mk.inj (Option.some.inj h)).2]
        exact ⟨_, shape_of_find? hd, hoff⟩
      · obtain ⟨hpersistent, rfl⟩ := Prod.mk.inj (Option.some.inj h)
        rw [stop, if_pos hpersistent]
        refine ⟨⟨d.name, .shutoff, d.definition⟩, ?_, rfl⟩
        rw [shape_set hd (by exact (uuid_of_find? hd :)), if_pos rfl]
        rfl
      · simp at h

/-! ### Guests by themselves -/

/-- A guest changes its state by itself, or stops. -/
def guestMove (s : VirtState) (dom : Nat) (state : DomainState) : Option VirtState :=
  (s.find? dom).bind fun d =>
    if d.state = .shutoff then none
    else some (if state = .shutoff then s.stop d else s.set { d with state := state } [])

theorem guestMove_eq {dom : Nat} {state : DomainState} (h : s.guestMove dom state = some s') :
    ∃ d, s.find? dom = some d ∧ d.state ≠ .shutoff ∧
      s' = if state = .shutoff then s.stop d else s.set { d with state := state } [] := by
  obtain ⟨d, hd, hs⟩ := Option.bind_eq_some_iff.mp h
  by_cases hoff : d.state = .shutoff
  · rw [if_pos hoff] at hs
    simp at hs
  · rw [if_neg hoff] at hs
    exact ⟨d, hd, hoff, (Option.some.inj hs).symm⟩

theorem guestMove_shrinks {dom : Nat} {state : DomainState} (h : s.guestMove dom state = some s') : Shrinks s s' := by
  obtain ⟨d, hd, -, rfl⟩ := guestMove_eq h
  have hmem : (d.uuid, d.name) ∈ s.idents := uuid_of_find? hd ▸ find?_idents hd
  split_ifs
  · exact stop_shrinks hmem
  · exact set_shrinks (by exact hmem) _

/-- A guest that is off stays off. -/
theorem asleep_guestMove {dom : Nat} {state : DomainState} (h : Named f s) (hs : s.asleep name = true)
    (hmove : s.guestMove dom state = some s') : s'.asleep name = true := by
  have h' := h.shrinks (guestMove_shrinks hmove)
  obtain ⟨d, hd, hon, heq⟩ := guestMove_eq hmove
  rw [h.asleep_iff] at hs
  rw [h'.asleep_iff]
  intro u a ha hname
  by_cases hu : u = dom
  · subst hu
    have hdname : d.name = name := by
      rw [← hname]
      exact (h.name _ (find?_idents hd)).trans
        ((h.name _ ((guestMove_shrinks hmove).idents _ (mem_idents_of_shape ha))).symm)
    exact absurd (hs u _ (shape_of_find? hd) hdname) hon
  · have hsame : s'.shape u = s.shape u := by
      rw [heq]
      split_ifs
      · exact shape_stop hd (Ne.symm hu)
      · rw [shape_set hd (by exact (uuid_of_find? hd :)), if_neg hu]
    exact hs u a (hsame ▸ ha) hname

end VirtState

end VMSmith
