/-
What libvirt's commands do to one domain.

The shape of a domain is its name, its run state and its definition: what it is apart from its
snapshots.  Most commands leave the shape of every domain alone, and the others that of every
domain but the one they are for.
-/
import VMSmith.System.World

namespace VMSmith

/-- A domain without its snapshots. -/
structure DomainShape where
  name : String
  state : DomainState
  definition : Option DomainXML
  deriving DecidableEq

def Domain.shape (d : Domain) : DomainShape := ⟨d.name, d.state, d.definition⟩

/-- The commands that may change the shape of a domain. -/
def VirtCmd.Shapes (u : Nat) : VirtCmd → Prop
  | .create dom | .destroy dom | .suspend dom | .resume dom | .undefineFlags dom | .undefine dom
  | .waitForShutoff dom | .revertToSnapshot dom _ => dom = u
  | .domainDefineXML xml => xml.uuid = some u
  | _ => False

instance (u : Nat) : ∀ c : VirtCmd, Decidable (c.Shapes u) := by
  intro c
  cases c <;> unfold VirtCmd.Shapes <;> infer_instance

namespace VirtState

/-- The shape of the domain with this UUID. -/
def shape (s : VirtState) (u : Nat) : Option DomainShape := (s.find? u).map Domain.shape

variable {s s' : VirtState} {x : Choice} {d : Domain} {u : Nat}

theorem uuid_of_find? (h : s.find? u = some d) : d.uuid = u := by
  simpa using List.find?_some h

theorem find?_set {v : Nat} {d' : Domain} (h : s.find? v = some d) (hv : d'.uuid = v)
    (events : List LifecycleEvent) :
    (s.set d' events).find? u = if u = v then some d' else s.find? u := by
  subst hv
  have hkeep : ((fun e : Domain => decide (e.uuid = u)) ∘ fun e => if e.uuid = d'.uuid then d' else e) =
      fun e => decide (e.uuid = u) := by
    funext e
    by_cases he : e.uuid = d'.uuid
    · simp [he]
    · simp [he]
  rw [find?, set, List.find?_map, hkeep]
  change (s.find? u).map _ = _
  split_ifs with hu
  · rw [hu, h, Option.map_some, if_pos (uuid_of_find? h)]
  · cases hd : s.find? u with
    | none => rfl
    | some e => rw [Option.map_some, if_neg (by rwa [uuid_of_find? hd])]

theorem shape_set {v : Nat} {d' : Domain} (h : s.find? v = some d) (hv : d'.uuid = v)
    (events : List LifecycleEvent) :
    (s.set d' events).shape u = if u = v then some d'.shape else s.shape u := by
  rw [shape, find?_set h hv]
  split_ifs <;> rfl

/-- A change of a domain's snapshots only. -/
theorem shape_set_same {v : Nat} {d' : Domain} (h : s.find? v = some d) (hv : d'.uuid = v)
    (hsame : d'.shape = d.shape) (events : List LifecycleEvent) :
    (s.set d' events).shape u = s.shape u := by
  rw [shape_set h hv]
  split_ifs with hu
  · rw [hu, shape, h, hsame]
    rfl
  · rfl

theorem shape_remove (hu : u ≠ d.uuid) (event : LifecycleEvent) :
    (s.remove d event).shape u = s.shape u := by
  unfold shape find? remove
  rw [List.find?_filter]
  congr 2
  funext e
  by_cases he : e.uuid = u
  · simp [he, hu]
  · simp [he]

theorem shape_stop {v : Nat} (h : s.find? v = some d) (hu : ¬ v = u) : (s.stop d).shape u = s.shape u := by
  have hv := uuid_of_find? h
  unfold stop
  split_ifs
  · rw [shape_set h (by exact hv), if_neg (Ne.symm hu)]
  · exact shape_remove (by rw [hv]; exact Ne.symm hu) _

theorem shape_undefineDomain {v : Nat} (h : s.find? v = some d) (hu : ¬ v = u) :
    (s.undefineDomain d).shape u = s.shape u := by
  have hv := uuid_of_find? h
  unfold undefineDomain
  split_ifs
  · exact shape_remove (by rw [hv]; exact Ne.symm hu) _
  · rw [shape_set h (by exact hv), if_neg (Ne.symm hu)]

/-- An action on a domain, where it goes through. -/
theorem onDomain_ok {α : Type} {dom : Nat} {act : Domain → Except Err (α × VirtState)} {a : α}
    (h : s.onDomain dom act = .ok (a, s')) : ∃ d, s.find? dom = some d ∧ act d = .ok (a, s') := by
  unfold onDomain at h
  cases hd : s.find? dom with
  | none => simp [hd] at h
  | some d =>
      rw [hd] at h
      exact ⟨d, rfl, h⟩

theorem transition_ok {dom : Nat} {possible : DomainState → Bool} {act : Domain → VirtState} {a : Unit}
    (h : s.transition dom possible act = .ok (a, s')) :
    ∃ d, s.find? dom = some d ∧ possible d.state = true ∧ s' = act d := by
  obtain ⟨d, hd, hact⟩ := onDomain_ok h
  split_ifs at hact with hpossible
  exact ⟨d, hd, hpossible, (Prod.mk.inj (Except.ok.inj hact)).2.symm⟩

/-- A transition keeps what its outcome and failing keep. -/
theorem transition_keeps {P : VirtState → Prop} {dom : Nat} {possible : DomainState → Bool}
    {act : Domain → VirtState} {r : Except Err Unit} (hs : P s)
    (hact : ∀ d, s.find? dom = some d → P (act d))
    (h : fallible x s (s.transition dom possible act) = some (r, s')) : P s' := by
  rcases fallible_eq h with ⟨e, -, rfl⟩ | ⟨a, -, ha, -⟩
  · exact hs
  · obtain ⟨d, hd, -, rfl⟩ := transition_ok ha
    exact hact d hd

theorem onDomain_keeps {P : VirtState → Prop} {α : Type} {dom : Nat}
    {act : Domain → Except Err (α × VirtState)} {r : Except Err α} (hs : P s)
    (hact : ∀ d a t, s.find? dom = some d → act d = .ok (a, t) → P t)
    (h : fallible x s (s.onDomain dom act) = some (r, s')) : P s' := by
  rcases fallible_eq h with ⟨e, -, rfl⟩ | ⟨a, -, ha, -⟩
  · exact hs
  · obtain ⟨d, hd, hact'⟩ := onDomain_ok ha
    exact hact d a s' hd hact'

/-- A new definition shapes its own domain only. -/
theorem shape_define {xml : DomainXML} {uuid : Nat} (hxml : xml.uuid ≠ some u) (hthere : (s.shape u).isSome)
    (h : s.defineXML xml = .ok (uuid, s')) : s'.shape u = s.shape u := by
  unfold defineXML at h
  split at h
  next d hd =>
    obtain ⟨v, hv, hfind⟩ := Option.bind_eq_some_iff.mp hd
    have hdv := uuid_of_find? hfind
    split_ifs at h
    obtain ⟨-, rfl⟩ := Prod.mk.inj (Except.ok.inj h)
    rw [shape_set hfind (by exact hdv), if_neg]
    rintro rfl
    exact hxml hv
  next =>
    split at h
    · simp at h
    · obtain ⟨-, rfl⟩ := Prod.mk.inj (Except.ok.inj h)
      unfold shape find? at hthere ⊢
      rw [List.find?_append, Option.or_of_isSome (by simpa using hthere)]

/-- **The frame rule for shapes.** -/
theorem shape_exec {c : VirtCmd} {r : c.Resp} (hc : ¬ c.Shapes u) (hthere : (s.shape u).isSome)
    (h : s.exec x c = some (r, s')) : s'.shape u = s.shape u := by
  have hset : ∀ {dom : Nat} {d d' : Domain} (events : List LifecycleEvent), ¬ dom = u →
      s.find? dom = some d → d'.uuid = d.uuid → (s.set d' events).shape u = s.shape u := by
    intro dom d d' events hdom hd hd'
    rw [shape_set hd (by rw [hd', uuid_of_find? hd]), if_neg (Ne.symm hdom)]
  have hmove : ∀ {dom : Nat} {possible : DomainState → Bool} {act : Domain → VirtState} {r : Except Err Unit},
      (∀ d, s.find? dom = some d → (act d).shape u = s.shape u) →
      fallible x s (s.transition dom possible act) = some (r, s') → s'.shape u = s.shape u :=
    fun hact h => transition_keeps (P := fun t => t.shape u = s.shape u) rfl hact h
  cases c with
  | lookupDomainByName name =>
      rw [(exec_lookup h).1]
  | getState dom =>
      refine onDomain_keeps (P := fun t => t.shape u = s.shape u) rfl (fun d a t _ hact => ?_) h
      rw [← (Prod.mk.inj (Except.ok.inj hact)).2]
  | create dom => exact hmove (fun d hd => by exact hset _ hc hd rfl) h
  | suspend dom => exact hmove (fun d hd => by exact hset _ hc hd rfl) h
  | resume dom => exact hmove (fun d hd => by exact hset _ hc hd rfl) h
  | shutdown dom | reboot dom | attachDevice dom addr => exact hmove (fun d hd => rfl) h
  | destroy dom => exact hmove (fun d hd => shape_stop hd hc) h
  | undefineFlags dom =>
      refine onDomain_keeps (P := fun t => t.shape u = s.shape u) rfl (fun d a t hd hact => ?_) h
      split_ifs at hact
      rw [← (Prod.mk.inj (Except.ok.inj hact)).2]
      exact shape_undefineDomain hd hc
  | undefine dom =>
      refine onDomain_keeps (P := fun t => t.shape u = s.shape u) rfl (fun d a t hd hact => ?_) h
      split_ifs at hact
      rw [← (Prod.mk.inj (Except.ok.inj hact)).2]
      exact shape_undefineDomain hd hc
  | waitForShutoff dom =>
      simp only [exec] at h
      cases hd : s.find? dom with
      | none =>
          simp only [hd, Option.some.injEq, Prod.mk.injEq] at h
          rw [← h.2]
      | some d =>
          simp only [hd] at h
          split_ifs at h
          · rw [← (Prod.mk.inj (Option.some.inj h)).2]
          · rw [← (Prod.mk.inj (Option.some.inj h)).2]
            exact shape_stop hd hc
          · rw [← (Prod.mk.inj (Option.some.inj h)).2]
  | getUUIDString dom =>
      simp only [exec] at h
      split_ifs at h
      · rw [← (Prod.mk.inj (Option.some.inj h)).2]
      · rw [← (Prod.mk.inj (Option.some.inj h)).2]
  | getDomainIP dom =>
      rw [← (Prod.mk.inj (Option.some.inj h)).2]
  | domainDefineXML xml =>
      rcases fallible_eq h with ⟨e, -, rfl⟩ | ⟨a, -, ha, -⟩
      · rfl
      · exact shape_define hc hthere ha
  | createSnapshot dom name description =>
      refine onDomain_keeps (P := fun t => t.shape u = s.shape u) rfl (fun d a t hd hact => ?_) h
      split at hact
      · split_ifs at hact
        rw [← (Prod.mk.inj (Except.ok.inj hact)).2]
        exact shape_set_same hd (by exact (uuid_of_find? hd :)) (by rfl) _
      · simp at hact
  | snapshotLookup dom name =>
      refine onDomain_keeps (P := fun t => t.shape u = s.shape u) rfl (fun d a t hd hact => ?_) h
      split_ifs at hact
      rw [← (Prod.mk.inj (Except.ok.inj hact)).2]
  | snapshotXML dom name secure =>
      refine onDomain_keeps (P := fun t => t.shape u = s.shape u) rfl (fun d a t hd hact => ?_) h
      split at hact
      · rw [← (Prod.mk.inj (Except.ok.inj hact)).2]
      · simp at hact
  | redefineSnapshot dom xml =>
      refine onDomain_keeps (P := fun t => t.shape u = s.shape u) rfl (fun d a t hd hact => ?_) h
      rw [← (Prod.mk.inj (Except.ok.inj hact)).2]
      exact shape_set_same hd (by exact (uuid_of_find? hd :)) (by rfl) _
  | listSnapshots dom =>
      refine onDomain_keeps (P := fun t => t.shape u = s.shape u) rfl (fun d a t hd hact => ?_) h
      rw [← (Prod.mk.inj (Except.ok.inj hact)).2]
  | revertToSnapshot dom name =>
      refine onDomain_keeps (P := fun t => t.shape u = s.shape u) rfl (fun d a t hd hact => ?_) h
      split at hact
      · rw [← (Prod.mk.inj (Except.ok.inj hact)).2]
        exact hset _ hc hd rfl
      · simp at hact
  | deleteSnapshot dom name =>
      refine onDomain_keeps (P := fun t => t.shape u = s.shape u) rfl (fun d a t hd hact => ?_) h
      split_ifs at hact
      rw [← (Prod.mk.inj (Except.ok.inj hact)).2]
      exact shape_set_same hd (by exact (uuid_of_find? hd :)) (by rfl) _

/-! ### The commands that do change it -/

theorem shape_of_find? (h : s.find? u = some d) : s.shape u = some d.shape := by
  rw [shape, h]
  rfl

theorem find?_of_shape {a : DomainShape} (h : s.shape u = some a) :
    ∃ d, s.find? u = some d ∧ d.shape = a :=
  Option.map_eq_some_iff.mp h

/-- A state that is read is the domain's. -/
theorem exec_getState {r : Except Err DomainState} (h : s.exec x (.getState u) = some (r, s')) :
    s' = s ∧ ∀ st, r = .ok st → ∃ a, s.shape u = some a ∧ a.state = st := by
  rcases fallible_eq h with ⟨e, rfl, rfl⟩ | ⟨a, -, ha, rfl⟩
  · exact ⟨rfl, fun st hst => by simp at hst⟩
  · obtain ⟨d, hd, hact⟩ := onDomain_ok ha
    obtain ⟨rfl, rfl⟩ := Prod.mk.inj (Except.ok.inj hact)
    refine ⟨rfl, fun st hst => ⟨d.shape, shape_of_find? hd, ?_⟩⟩
    exact Except.ok.inj hst

/-- A move from one run state to another, or nothing. -/
theorem exec_move {possible : DomainState → Bool} {target : DomainState} {event : LifecycleEvent}
    {r : Except Err Unit} (h : fallible x s (s.transition u possible fun d =>
      s.set { d with state := target } [event]) = some (r, s')) :
    ((∃ e, r = .error e) ∧ s' = s) ∨ ∃ a, s.shape u = some a ∧ x.fail = none ∧ r = .ok () ∧
      possible a.state = true ∧ s'.shape u = some { a with state := target } := by
  rcases fallible_eq h with ⟨e, rfl, rfl⟩ | ⟨a, hx, ha, rfl⟩
  · exact .inl ⟨⟨e, rfl⟩, rfl⟩
  · obtain ⟨d, hd, hpossible, rfl⟩ := transition_ok ha
    refine .inr ⟨d.shape, shape_of_find? hd, hx, rfl, hpossible, ?_⟩
    rw [shape_set hd (by exact (uuid_of_find? hd :)), if_pos rfl]
    rfl

/-- A definition with the UUID of a domain. -/
theorem exec_define_known {xml : DomainXML} {a : DomainShape} (hxml : xml.uuid = some u)
    (hthere : s.shape u = some a) {r : Except Err Nat}
    (h : s.exec x (.domainDefineXML xml) = some (r, s')) :
    ((∃ e, r = .error e) ∧ s' = s) ∨ (r = .ok u ∧ xml.name = a.name ∧
      s'.shape u = some { a with definition := some { xml with uuid := none } }) := by
  rcases fallible_eq h with ⟨e, rfl, rfl⟩ | ⟨v, -, hv, rfl⟩
  · exact .inl ⟨⟨e, rfl⟩, rfl⟩
  · obtain ⟨d, hd, rfl⟩ := find?_of_shape hthere
    unfold defineXML at hv
    rw [hxml, Option.bind_some, hd] at hv
    simp only at hv
    split_ifs at hv with hname
    obtain ⟨rfl, rfl⟩ := Prod.mk.inj (Except.ok.inj hv)
    refine .inr ⟨by rw [uuid_of_find? hd], hname.symm, ?_⟩
    rw [shape_set hd (by exact (uuid_of_find? hd :)), if_pos rfl]
    rfl

theorem exec_define_known_shrinks {xml : DomainXML} {a : DomainShape} (hxml : xml.uuid = some u)
    (hthere : s.shape u = some a) {r : Except Err Nat}
    (h : s.exec x (.domainDefineXML xml) = some (r, s')) : Shrinks s s' := by
  refine fallible_shrinks (fun v t hv => ?_) h
  obtain ⟨d, hd, rfl⟩ := find?_of_shape hthere
  unfold defineXML at hv
  rw [hxml, Option.bind_some, hd] at hv
  simp only at hv
  split_ifs at hv
  obtain ⟨-, rfl⟩ := Prod.mk.inj (Except.ok.inj hv)
  have hmem := find?_idents hd
  rw [← uuid_of_find? hd] at hmem
  exact set_shrinks (by exact hmem) _

/-- A definition without a UUID, under a name that is taken, is refused. -/
theorem exec_define_taken {xml : DomainXML} {a : DomainShape} (hxml : xml.uuid = none)
    (hthere : s.shape u = some a) (hname : xml.name = a.name) {r : Except Err Nat}
    (h : s.exec x (.domainDefineXML xml) = some (r, s')) : (∃ e, r = .error e) ∧ s' = s := by
  rcases fallible_eq h with ⟨e, rfl, rfl⟩ | ⟨v, -, hv, rfl⟩
  · exact ⟨⟨e, rfl⟩, rfl⟩
  · obtain ⟨d, hd, rfl⟩ := find?_of_shape hthere
    have htaken : (s.findName? xml.name).isSome = true := by
      rw [findName?, List.find?_isSome]
      exact ⟨d, List.mem_of_find?_eq_some hd, by simp [hname, Domain.shape]⟩
    obtain ⟨e, he⟩ := Option.isSome_iff_exists.mp htaken
    simp [defineXML, hxml, he] at hv

end VirtState

end VMSmith
