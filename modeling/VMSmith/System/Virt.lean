/-
libvirt.

A domain has a name and a UUID that never change, a persistent definition unless it
is transient, a run state and snapshots.  A handle is the UUID.  Every change of a
domain queues one lifecycle event, in order.  `shutdown` only asks the guest; what
the guest does, and when, is a move of the world.
-/
import VMSmith.Libvirt.Domain
import VMSmith.System.Store

namespace VMSmith

inductive DomainState where
  | running
  /-- Blocked on a resource. -/
  | blocked
  | paused
  /-- The guest is shutting down. -/
  | shutdown
  | shutoff
  | crashed
  | pmsuspended
  deriving DecidableEq, Repr

/-- The kind of a lifecycle event. -/
inductive LifecycleEvent where
  | defined
  | undefined
  | started
  | suspended
  | resumed
  | stopped
  | shutdown
  | pmsuspended
  | crashed
  deriving DecidableEq, Repr

/-- A snapshot's metadata: it keeps a copy of the domain's definition. -/
structure SnapshotXML where
  name : String
  description : String := ""
  /-- In whole seconds. -/
  creationTime : Nat := 0
  definition : DomainXML
  deriving DecidableEq, Repr

structure Domain where
  uuid : Nat
  name : String
  definition : Option DomainXML
  state : DomainState := .shutoff
  snapshots : List SnapshotXML := []
  deriving DecidableEq, Repr

inductive VirtCmd where
  | lookupDomainByName (name : String)
  | getState (dom : Nat)
  | create (dom : Nat)
  | shutdown (dom : Nat)
  | destroy (dom : Nat)
  | reboot (dom : Nat)
  | suspend (dom : Nat)
  | resume (dom : Nat)
  /-- Undefine with managed save, snapshot metadata and NVRAM. -/
  | undefineFlags (dom : Nat)
  | undefine (dom : Nat)
  /-- Poll the state until it is shut off, or for long enough. -/
  | waitForShutoff (dom : Nat)
  | getUUIDString (dom : Nat)
  | domainDefineXML (xml : DomainXML)
  | attachDevice (dom : Nat) (addr : PCIAddress)
  /-- The address the guest agent, the leases or the ARP cache give. -/
  | getDomainIP (dom : Nat)
  | createSnapshot (dom : Nat) (name description : String)
  | snapshotLookup (dom : Nat) (name : String)
  /-- Without the secure flag the password is left out. -/
  | snapshotXML (dom : Nat) (name : String) (secure : Bool)
  | redefineSnapshot (dom : Nat) (xml : SnapshotXML)
  | listSnapshots (dom : Nat)
  | revertToSnapshot (dom : Nat) (name : String)
  | deleteSnapshot (dom : Nat) (name : String)
  deriving DecidableEq, Repr

@[reducible] def VirtCmd.Resp : VirtCmd → Type
  | .lookupDomainByName _ => Except Err Nat
  | .getState _ => Except Err DomainState
  | .waitForShutoff _ => Bool
  | .getUUIDString _ => Option Nat
  | .domainDefineXML _ => Except Err Nat
  | .getDomainIP _ => String
  | .snapshotXML _ _ _ => Except Err SnapshotXML
  | .listSnapshots _ => Except Err (List String)
  | _ => Except Err Unit

structure VirtState where
  domains : List Domain := []
  nextUUID : Nat := 1
  /-- Events queued for delivery: the domain's name and what happened. -/
  events : List (String × LifecycleEvent) := []
  deriving DecidableEq, Repr

namespace VirtState

/-- The domain with this UUID. -/
def find? (s : VirtState) (dom : Nat) : Option Domain := s.domains.find? (fun d => d.uuid = dom)

def findName? (s : VirtState) (name : String) : Option Domain :=
  s.domains.find? (fun d => d.name = name)

/-- Replace a domain by its new self and queue what happened to it. -/
def set (s : VirtState) (d : Domain) (events : List LifecycleEvent) : VirtState :=
  { s with
    domains := s.domains.map fun e => if e.uuid = d.uuid then d else e
    events := s.events ++ events.map (d.name, ·) }

/-- A domain that is gone. -/
def remove (s : VirtState) (d : Domain) (event : LifecycleEvent) : VirtState :=
  { s with
    domains := s.domains.filter fun e => e.uuid ≠ d.uuid
    events := s.events ++ [(d.name, event)] }

/-- A domain that stops running; a transient one is gone then. -/
def stop (s : VirtState) (d : Domain) : VirtState :=
  if d.definition.isSome then s.set { d with state := .shutoff } [.stopped] else s.remove d .stopped

/-- An undefined domain lives on while it runs, as a transient one. -/
def undefineDomain (s : VirtState) (d : Domain) : VirtState :=
  if d.state = .shutoff then s.remove d .undefined
  else s.set { d with definition := none, snapshots := [] } [.undefined]

/-- `DomainDefineXML`: a document with the UUID of a domain replaces its definition; any
other one needs a name that is free. -/
def defineXML (s : VirtState) (xml : DomainXML) : Except Err (Nat × VirtState) :=
  match xml.uuid.bind s.find? with
  | some d =>
      if d.name = xml.name then
        .ok (d.uuid, s.set { d with definition := some { xml with uuid := none } } [.defined])
      else .error (.ext "domain is already defined with this uuid")
  | none =>
      match s.findName? xml.name with
      | some _ => .error (.ext ("domain " ++ xml.name ++ " already exists"))
      | none =>
          let uuid := xml.uuid.getD s.nextUUID
          .ok (uuid, { s with
            domains := s.domains ++
              [{ uuid := uuid, name := xml.name, definition := some { xml with uuid := none } }]
            nextUUID := max s.nextUUID uuid + 1
            events := s.events ++ [(xml.name, .defined)] })

/-- What a metadata dump shows of a definition. -/
def dump (secure : Bool) (x : SnapshotXML) : SnapshotXML :=
  if secure then x else { x with definition := { x.definition with vncPassword := "" } }

/-- A command on the domain behind a handle. -/
def onDomain {α : Type} (s : VirtState) (dom : Nat)
    (act : Domain → Except Err (α × VirtState)) : Except Err (α × VirtState) :=
  match s.find? dom with
  | some d => act d
  | none => .error (.ext "Domain not found")

/-- A change of the run state that the domain must be in the right state for. -/
def transition (s : VirtState) (dom : Nat) (possible : DomainState → Bool)
    (act : Domain → VirtState) : Except Err (Unit × VirtState) :=
  s.onDomain dom fun d =>
    if possible d.state then .ok ((), act d)
    else .error (.ext "Requested operation is not valid")

/-- One call to libvirt. -/
def exec (s : VirtState) (x : Choice) : (c : VirtCmd) → Option (c.Resp × VirtState)
  | .lookupDomainByName name => fallible x s <|
      match s.findName? name with
      | some d => .ok (d.uuid, s)
      | none => .error (.ext "Domain not found")
  | .getState dom => fallible x s (s.onDomain dom fun d => .ok (d.state, s))
  | .create dom => fallible x s <|
      s.transition dom (· = .shutoff) fun d => s.set { d with state := .running } [.started]
  | .shutdown dom => fallible x s (s.transition dom (· = .running) fun _ => s)
  | .destroy dom => fallible x s (s.transition dom (· ≠ .shutoff) fun d => s.stop d)
  | .reboot dom => fallible x s (s.transition dom (· = .running) fun _ => s)
  | .suspend dom => fallible x s <|
      s.transition dom (· = .running) fun d => s.set { d with state := .paused } [.suspended]
  | .resume dom => fallible x s <|
      s.transition dom (· = .paused) fun d => s.set { d with state := .running } [.resumed]
  | .undefineFlags dom => fallible x s <| s.onDomain dom fun d =>
      if d.definition.isSome then .ok ((), s.undefineDomain d)
      else .error (.ext "cannot undefine transient domain")
  | .undefine dom => fallible x s <| s.onDomain dom fun d =>
      if d.definition.isSome ∧ d.snapshots = [] then .ok ((), s.undefineDomain d)
      else .error (.ext "cannot undefine domain")
  | .waitForShutoff dom =>
      match s.find? dom with
      | some d =>
          if d.state = .shutoff then some (true, s)
          else if x.flag then some (d.definition.isSome, s.stop d)
          else some (false, s)
      | none => some (false, s)
  | .getUUIDString dom =>
      if x.fail.isSome then some (none, s) else some ((s.find? dom).map Domain.uuid, s)
  | .domainDefineXML xml => fallible x s (s.defineXML xml)
  | .attachDevice dom _ => fallible x s (s.transition dom (· ≠ .shutoff) fun _ => s)
  | .getDomainIP _ => some (x.text, s)
  | .createSnapshot dom name description => fallible x s <| s.onDomain dom fun d =>
      match d.definition with
      | some xml =>
          if name ∈ d.snapshots.map SnapshotXML.name then .error (.ext "snapshot already exists")
          else .ok ((), s.set { d with
            snapshots := d.snapshots ++
              [{ name := name, description := description, creationTime := x.nat, definition := xml }] } [])
      | none => .error (.ext "domain is transient")
  | .snapshotLookup dom name => fallible x s <| s.onDomain dom fun d =>
      if name ∈ d.snapshots.map SnapshotXML.name then .ok ((), s)
      else .error (.ext "Domain snapshot not found")
  | .snapshotXML dom name secure => fallible x s <| s.onDomain dom fun d =>
      match d.snapshots.find? (fun y => y.name = name) with
      | some y => .ok (dump secure y, s)
      | none => .error (.ext "Domain snapshot not found")
  | .redefineSnapshot dom xml => fallible x s <| s.onDomain dom fun d =>
      .ok ((), s.set { d with
        snapshots := d.snapshots.map fun y => if y.name = xml.name then xml else y } [])
  | .listSnapshots dom => fallible x s <| s.onDomain dom fun d =>
      -- in any order
      let names := d.snapshots.map SnapshotXML.name
      .ok (if x.texts.isPerm names then x.texts else names, s)
  | .revertToSnapshot dom name => fallible x s <| s.onDomain dom fun d =>
      match d.snapshots.find? (fun y => y.name = name) with
      | some y => .ok ((), s.set { d with
          definition := some y.definition
          state := if x.flag then .running else .shutoff } [.defined])
      | none => .error (.ext "Domain snapshot not found")
  | .deleteSnapshot dom name => fallible x s <| s.onDomain dom fun d =>
      if name ∈ d.snapshots.map SnapshotXML.name then
        .ok ((), s.set { d with snapshots := d.snapshots.filter fun y => y.name ≠ name } [])
      else .error (.ext "Domain snapshot not found")

/-! ### Names

A domain keeps its UUID and its name for as long as it is there, and a UUID is not
given out twice.
-/

/-- The UUIDs in use, each with its domain's name. -/
def idents (s : VirtState) : List (Nat × String) := s.domains.map fun d => (d.uuid, d.name)

/-- Domains may be gone, but none is new and none renamed. -/
structure Shrinks (s s' : VirtState) : Prop where
  idents : ∀ p ∈ s'.idents, p ∈ s.idents
  nextUUID : s'.nextUUID = s.nextUUID

variable {s s' : VirtState} {x : Choice} {d : Domain}

theorem Shrinks.refl (s : VirtState) : Shrinks s s := ⟨fun _ h => h, rfl⟩

theorem find?_idents {dom : Nat} (h : s.find? dom = some d) : (dom, d.name) ∈ s.idents := by
  have hd : d.uuid = dom := by simpa using List.find?_some h
  exact List.mem_map.mpr ⟨d, List.mem_of_find?_eq_some h, by rw [hd]⟩

theorem findName?_idents {name : String} (h : s.findName? name = some d) :
    (d.uuid, name) ∈ s.idents := by
  have hd : d.name = name := by simpa using List.find?_some h
  exact List.mem_map.mpr ⟨d, List.mem_of_find?_eq_some h, by rw [hd]⟩

theorem set_shrinks {e : Domain} (h : (e.uuid, e.name) ∈ s.idents) (events : List LifecycleEvent) :
    Shrinks s (s.set e events) := by
  refine ⟨fun p hp => ?_, rfl⟩
  obtain ⟨d, hd, rfl⟩ := List.mem_map.mp hp
  obtain ⟨d₀, hd₀, rfl⟩ := List.mem_map.mp hd
  split_ifs
  · exact h
  · exact List.mem_map.mpr ⟨d₀, hd₀, rfl⟩

theorem remove_shrinks (e : Domain) (event : LifecycleEvent) : Shrinks s (s.remove e event) := by
  refine ⟨fun p hp => ?_, rfl⟩
  obtain ⟨d, hd, rfl⟩ := List.mem_map.mp hp
  exact List.mem_map.mpr ⟨d, (List.mem_filter.mp hd).1, rfl⟩

theorem stop_shrinks (h : (d.uuid, d.name) ∈ s.idents) : Shrinks s (s.stop d) := by
  unfold stop
  split_ifs
  · refine set_shrinks ?_ _
    exact h
  · exact remove_shrinks d _

theorem undefineDomain_shrinks (h : (d.uuid, d.name) ∈ s.idents) :
    Shrinks s (s.undefineDomain d) := by
  unfold undefineDomain
  split_ifs
  · exact remove_shrinks d _
  · refine set_shrinks ?_ _
    exact h

theorem onDomain_shrinks {α : Type} {dom : Nat} {act : Domain → Except Err (α × VirtState)} {a : α}
    (hact : ∀ d, (d.uuid, d.name) ∈ s.idents → ∀ a t, act d = .ok (a, t) → Shrinks s t)
    (h : s.onDomain dom act = .ok (a, s')) : Shrinks s s' := by
  unfold onDomain at h
  cases hd : s.find? dom with
  | none => simp [hd] at h
  | some d =>
      rw [hd] at h
      exact hact d (List.mem_map.mpr ⟨d, List.mem_of_find?_eq_some hd, rfl⟩) a s' h

theorem transition_shrinks {dom : Nat} {possible : DomainState → Bool} {act : Domain → VirtState}
    {a : Unit} (hact : ∀ d, (d.uuid, d.name) ∈ s.idents → Shrinks s (act d))
    (h : s.transition dom possible act = .ok (a, s')) : Shrinks s s' := by
  refine onDomain_shrinks (fun d hd a t ht => ?_) h
  split_ifs at ht
  obtain ⟨-, rfl⟩ := Prod.mk.inj (Except.ok.inj ht)
  exact hact d hd

theorem fallible_shrinks {α : Type} {act : Except Err (α × VirtState)} {r : Except Err α}
    (hact : ∀ a t, act = .ok (a, t) → Shrinks s t) (h : fallible x s act = some (r, s')) :
    Shrinks s s' := by
  rcases fallible_eq h with ⟨e, -, rfl⟩ | ⟨a, -, ha, -⟩
  · exact .refl _
  · exact hact a _ ha

/-- An action on a domain that changes at most that domain. -/
theorem act_shrinks {α : Type} {dom : Nat} {act : Domain → Except Err (α × VirtState)}
    {r : Except Err α}
    (hact : ∀ d, (d.uuid, d.name) ∈ s.idents → ∀ a t, act d = .ok (a, t) → Shrinks s t)
    (h : fallible x s (s.onDomain dom act) = some (r, s')) : Shrinks s s' :=
  fallible_shrinks (fun _ _ ha => onDomain_shrinks hact ha) h

theorem move_shrinks {dom : Nat} {possible : DomainState → Bool} {act : Domain → VirtState}
    {r : Except Err Unit} (hact : ∀ d, (d.uuid, d.name) ∈ s.idents → Shrinks s (act d))
    (h : fallible x s (s.transition dom possible act) = some (r, s')) : Shrinks s s' :=
  fallible_shrinks (fun _ _ ha => transition_shrinks hact ha) h

/-- Every command but a definition shrinks the set of domains. -/
theorem exec_shrinks {c : VirtCmd} {r : c.Resp} (hc : ∀ xml, c ≠ .domainDefineXML xml)
    (h : s.exec x c = some (r, s')) : Shrinks s s' := by
  have hsame : ∀ {α : Type} {a a' : α} {t : VirtState},
      (Except.ok (a, s) : Except Err (α × VirtState)) = .ok (a', t) → Shrinks s t := by
    intro α a a' t ht
    obtain ⟨-, rfl⟩ := Prod.mk.inj (Except.ok.inj ht)
    exact .refl s
  cases c with
  | domainDefineXML xml => exact absurd rfl (hc xml)
  | lookupDomainByName name =>
      refine fallible_shrinks (fun a t ht => ?_) h
      split at ht
      · exact hsame ht
      · exact absurd ht (by simp)
  | getState dom => exact act_shrinks (fun _ _ _ _ ht => hsame ht) h
  | listSnapshots dom => exact act_shrinks (fun _ _ _ _ ht => hsame ht) h
  | create dom => exact move_shrinks (fun d hd => set_shrinks (by exact hd) _) h
  | suspend dom => exact move_shrinks (fun d hd => set_shrinks (by exact hd) _) h
  | resume dom => exact move_shrinks (fun d hd => set_shrinks (by exact hd) _) h
  | shutdown dom => exact move_shrinks (fun d hd => .refl s) h
  | reboot dom => exact move_shrinks (fun d hd => .refl s) h
  | attachDevice dom addr => exact move_shrinks (fun d hd => .refl s) h
  | destroy dom => exact move_shrinks (fun d hd => stop_shrinks hd) h
  | undefineFlags dom =>
      refine act_shrinks (fun d hd a t ht => ?_) h
      split_ifs at ht
      obtain ⟨-, rfl⟩ := Prod.mk.inj (Except.ok.inj ht)
      exact undefineDomain_shrinks hd
  | undefine dom =>
      refine act_shrinks (fun d hd a t ht => ?_) h
      split_ifs at ht
      obtain ⟨-, rfl⟩ := Prod.mk.inj (Except.ok.inj ht)
      exact undefineDomain_shrinks hd
  | waitForShutoff dom =>
      simp only [exec] at h
      cases hd : s.find? dom with
      | none =>
          simp only [hd, Option.some.injEq, Prod.mk.injEq] at h
          rw [← h.2]
          exact .refl s
      | some d =>
          have hmem : (d.uuid, d.name) ∈ s.idents :=
            List.mem_map.mpr ⟨d, List.mem_of_find?_eq_some hd, rfl⟩
          simp only [hd] at h
          split_ifs at h
          · rw [← (Prod.mk.inj (Option.some.inj h)).2]
            exact .refl s
          · rw [← (Prod.mk.inj (Option.some.inj h)).2]
            exact stop_shrinks hmem
          · rw [← (Prod.mk.inj (Option.some.inj h)).2]
            exact .refl s
  | getUUIDString dom =>
      simp only [exec] at h
      split_ifs at h
      · rw [← (Prod.mk.inj (Option.some.inj h)).2]
        exact .refl s
      · rw [← (Prod.mk.inj (Option.some.inj h)).2]
        exact .refl s
  | getDomainIP dom =>
      rw [← (Prod.mk.inj (Option.some.inj h)).2]
      exact .refl s
  | createSnapshot dom name description =>
      refine act_shrinks (fun d hd a t ht => ?_) h
      split at ht
      · split_ifs at ht
        obtain ⟨-, rfl⟩ := Prod.mk.inj (Except.ok.inj ht)
        exact set_shrinks (by exact hd) _
      · exact absurd ht (by simp)
  | snapshotLookup dom name =>
      refine act_shrinks (fun d hd a t ht => ?_) h
      split_ifs at ht
      exact hsame ht
  | snapshotXML dom name secure =>
      refine act_shrinks (fun d hd a t ht => ?_) h
      split at ht
      · exact hsame ht
      · exact absurd ht (by simp)
  | redefineSnapshot dom xml =>
      refine act_shrinks (fun d hd a t ht => ?_) h
      obtain ⟨-, rfl⟩ := Prod.mk.inj (Except.ok.inj ht)
      exact set_shrinks (by exact hd) _
  | revertToSnapshot dom name =>
      refine act_shrinks (fun d hd a t ht => ?_) h
      split at ht
      · obtain ⟨-, rfl⟩ := Prod.mk.inj (Except.ok.inj ht)
        exact set_shrinks (by exact hd) _
      · exact absurd ht (by simp)
  | deleteSnapshot dom name =>
      refine act_shrinks (fun d hd a t ht => ?_) h
      split_ifs at ht
      obtain ⟨-, rfl⟩ := Prod.mk.inj (Except.ok.inj ht)
      exact set_shrinks (by exact hd) _

/-- A definition without a UUID is of a new domain, or fails. -/
theorem exec_define_new {xml : DomainXML} (hxml : xml.uuid = none) {r : Except Err Nat}
    (h : s.exec x (.domainDefineXML xml) = some (r, s')) :
    (∃ e, r = .error e ∧ s' = s) ∨
      (r = .ok s.nextUUID ∧ s'.idents = s.idents ++ [(s.nextUUID, xml.name)] ∧
        s'.nextUUID = s.nextUUID + 1) := by
  rcases fallible_eq h with ⟨e, rfl, rfl⟩ | ⟨a, -, ha, rfl⟩
  · exact .inl ⟨e, rfl, rfl⟩
  · unfold defineXML at ha
    rw [hxml] at ha
    simp only [Option.bind_none, Option.getD_none] at ha
    split at ha
    · exact absurd ha (by simp)
    · obtain ⟨rfl, rfl⟩ := Prod.mk.inj (Except.ok.inj ha)
      refine .inr ⟨rfl, ?_, ?_⟩
      · simp [idents]
      · simp

/-- A lookup finds a domain that is there. -/
theorem exec_lookup {name : String} {r : Except Err Nat}
    (h : s.exec x (.lookupDomainByName name) = some (r, s')) :
    s' = s ∧ ∀ dom, r = .ok dom → (dom, name) ∈ s.idents := by
  rcases fallible_eq h with ⟨e, rfl, rfl⟩ | ⟨a, -, ha, rfl⟩
  · exact ⟨rfl, fun dom hdom => by simp at hdom⟩
  · cases hd : s.findName? name with
    | none => simp [hd] at ha
    | some d =>
        simp only [hd, Except.ok.injEq, Prod.mk.injEq] at ha
        refine ⟨ha.2.symm, fun dom hdom => ?_⟩
        rw [← Except.ok.inj hdom, ← ha.1]
        exact findName?_idents hd

/-- A domain's UUID is its own, and no UUID is given twice. -/
structure Numbered (s : VirtState) : Prop where
  below : ∀ p ∈ s.idents, p.1 < s.nextUUID
  unique : ∀ p ∈ s.idents, ∀ q ∈ s.idents, p.1 = q.1 → p = q

theorem Numbered.shrinks (h : s.Numbered) (hs : Shrinks s s') : s'.Numbered where
  below p hp := by
    rw [hs.nextUUID]
    exact h.below p (hs.idents p hp)
  unique p hp q hq := h.unique p (hs.idents p hp) q (hs.idents q hq)

theorem Numbered.define (h : s.Numbered) {name : String}
    (hidents : s'.idents = s.idents ++ [(s.nextUUID, name)]) (hnext : s'.nextUUID = s.nextUUID + 1) :
    s'.Numbered where
  below p hp := by
    rw [hnext]
    rw [hidents, List.mem_append, List.mem_singleton] at hp
    rcases hp with hold | rfl
    · exact Nat.lt_succ_of_lt (h.below p hold)
    · exact Nat.lt_succ_self _
  unique p hp q hq heq := by
    rw [hidents, List.mem_append, List.mem_singleton] at hp hq
    rcases hp with hp | rfl <;> rcases hq with hq | rfl
    · exact h.unique p hp q hq heq
    · exact absurd (h.below p hp) (by rw [heq]; exact Nat.lt_irrefl _)
    · exact absurd (h.below q hq) (by rw [← heq]; exact Nat.lt_irrefl _)
    · rfl

end VirtState

end VMSmith
