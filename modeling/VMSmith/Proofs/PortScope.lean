/-
A port request touches the rules of the VM it is addressed to.

An update and a bulk deletion look first whether the rule is the VM's, so they are in scope
for every ID.  A removal does not look: it is in scope just when the rule is the VM's, or cannot be
removed.  An addition stores its rule under an ID made from the clock, and takes the place
of a rule that has this ID already.
-/
import VMSmith.Api.PortHandlers
import VMSmith.Proofs.Ports

namespace VMSmith

open Prog
open PortForwarder (ruleID portConflict)

namespace StoreState

/-- Every rule is stored under its own ID. -/
def RulesKeyed (s : StoreState) : Prop := ∀ id fwd, s.forwards.get? id = some fwd → fwd.id = id

/-- Every rule of another VM is stored as it was. -/
def OthersKept (vmID : String) (s s' : StoreState) : Prop :=
  ∀ id fwd, s.forwards.get? id = some fwd → fwd.vmID ≠ vmID → s'.forwards.get? id = some fwd

/-- A rule with this ID, if there is one, is the VM's. -/
def OwnRule (vmID id : String) (s : StoreState) : Prop :=
  ∀ fwd, s.forwards.get? id = some fwd → fwd.vmID = vmID

variable {s s' : StoreState} {vmID : String}

theorem OthersKept.refl (vmID : String) (s : StoreState) : OthersKept vmID s s := fun _ _ h _ => h

theorem OthersKept.of_same (h : s'.forwards = s.forwards) : OthersKept vmID s s' :=
  fun _ _ hget _ => h ▸ hget

theorem OthersKept.put (h : OthersKept vmID s s') {rule : PortForward} (hown : s.OwnRule vmID rule.id) :
    OthersKept vmID s { s' with forwards := s'.forwards.put rule.id rule } := by
  intro id fwd hget hother
  have hne : id ≠ rule.id := by
    rintro rfl
    exact hother (hown fwd hget)
  exact (Bucket.get?_put_ne _ _ hne).trans (h id fwd hget hother)

theorem OthersKept.erase (h : OthersKept vmID s s') {id : String} (hown : s.OwnRule vmID id) :
    OthersKept vmID s { s' with forwards := s'.forwards.erase id } := by
  intro id' fwd hget hother
  have hne : id' ≠ id := by
    rintro rfl
    exact hother (hown fwd hget)
  exact (Bucket.get?_erase_ne _ hne).trans (h id' fwd hget hother)

/-- Rules are stored under their own IDs by every transaction. -/
theorem RulesKeyed.exec (h : s.RulesKeyed) {x : Choice} {c : StoreCmd} {r : c.Resp}
    (hexec : s.exec x c = some (r, s')) : s'.RulesKeyed := by
  cases c with
  | getVM id => exact (exec_getVM hexec).1 ▸ h
  | listVMs | putVM vm | deleteVM id | putSnapshotTags vmID name tags | getSnapshotTags vmID name
  | listSnapshotTags vmID | deleteSnapshotTags vmID name
  | listPortForwards =>
      rcases fallible_ok hexec with ⟨-, -, rfl⟩ | ⟨-, -, rfl⟩
      · exact h
      · exact h
  | putPortForward rule =>
      rcases fallible_ok hexec with ⟨-, -, rfl⟩ | ⟨-, -, rfl⟩
      · exact h
      · intro id fwd hget
        rcases Bucket.mem_put hget with ⟨rfl, rfl⟩ | ⟨-, hold⟩
        · rfl
        · exact h id fwd hold
  | deletePortForward id =>
      rcases fallible_ok hexec with ⟨-, -, rfl⟩ | ⟨-, -, rfl⟩
      · exact h
      · exact fun id' fwd hget => h id' fwd (Bucket.mem_erase.mp hget).2

end StoreState

/-- The VM can be had with an address: from its domain, or for being static. -/
def VM.MayHaveIP (vm : VM) (w : World) : Prop :=
  (w.virt.findName? vm.name).isSome = true ∨ (Manager.withStaticIP vm).ip ≠ ""

/-- Later, with the store as it was. -/
structure World.Later (w w' : World) : Prop where
  store : w'.store = w.store
  clock : w.host.clock ≤ w'.host.clock

theorem World.Later.trans {w w' w'' : World} (h : w.Later w') (h' : w'.Later w'') : w.Later w'' :=
  ⟨h'.store.trans h.store, h.clock.trans h'.clock⟩

theorem World.exec_clock {c : Cmd} {x : Choice} {w w' : World} {r : c.Resp}
    (h : World.exec c x w = some (r, w')) : w.host.clock ≤ w'.host.clock := by
  cases c with
  | store c | virt c | net c | file c =>
      obtain ⟨p, -, heq⟩ := Option.map_eq_some_iff.mp h
      rw [← (Prod.mk.inj heq).2]
  | host c =>
      obtain ⟨⟨r', s⟩, hs, heq⟩ := Option.map_eq_some_iff.mp h
      rw [← (Prod.mk.inj heq).2]
      change w.host.clock ≤ s.clock
      cases c with
      | now =>
          rw [← (Prod.mk.inj (Option.some.inj hs)).2]
          exact Nat.le_add_right _ _
      | generateAdminPassword | hashVNCPassword plain | nonce | enforceCreateQuotas spec =>
          rcases fallible_ok hs with ⟨-, -, rfl⟩ | ⟨-, -, rfl⟩
          · exact le_rfl
          · exact le_rfl
      | generateMAC | acquireCreateSlot | waitPingable target | publish evt =>
          rw [← (Prod.mk.inj (Option.some.inj hs)).2]

section Scoped

variable {vmID : String} {w w₀ : World} {α β : Type}

theorem wp_later {p : M α} (hp : OffStore p) {Q : Except Err α → World → Prop}
    (hQ : ∀ r w', w.Later w' → Q r w') : wp World.sem p Q w := by
  refine wp_of_only w.Later (fun _ _ _ _ => trivial) ?_ hp ⟨rfl, le_rfl⟩ hQ
  rintro w' c r w'' hlater hc ⟨x, hexec⟩
  exact ⟨(World.exec_offStore hc hexec).trans hlater.store, hlater.clock.trans (World.exec_clock hexec)⟩

theorem wp_later_bind {p : M α} (hp : OffStore p) {f : α → M β} {Q : Except Err β → World → Prop}
    (herr : ∀ e w', w.Later w' → Q (.error e) w')
    (hok : ∀ a w', w.Later w' → wp World.sem (f a) Q w') : wp World.sem (p >>= f) Q w := by
  rw [bind_eq, wp_bind]
  refine wp_later hp fun r w' hlater => ?_
  cases r with
  | error e => exact herr e w' hlater
  | ok a => exact hok a w' hlater

theorem wp_list {f : Except Err (List PortForward) → M α} {Q : Except Err α → World → Prop}
    (herr : ∀ e, wp World.sem (f (.error e)) Q w) (hok : wp World.sem (f (.ok w.store.forwards.values)) Q w) :
    wp World.sem (storeCall .listPortForwards >>= f) Q w := by
  refine (wp_call _ _ _ _).mpr ⟨trivial, ?_⟩
  rintro r w' ⟨x, hexec⟩
  obtain ⟨s, hs, rfl⟩ := World.exec_store hexec
  rcases fallible_ok hs with ⟨-, ⟨e, rfl⟩, rfl⟩ | ⟨-, rfl, rfl⟩
  · exact herr e
  · exact hok

theorem wp_listed {context : String} {f : List PortForward → M α} {Q : Except Err α → World → Prop}
    (herr : ∀ e, Q (.error e) w) (hok : wp World.sem (f w.store.forwards.values) Q w) :
    wp World.sem (listPortForwards context >>= f) Q w := by
  rw [bind_eq, wp_bind]
  refine wp_list (fun e => ?_) ?_
  · exact (wp_throw _ _ _).mpr (herr _)
  · exact (wp_ret _ _ _).mpr hok

theorem wp_putRule {rule : PortForward} {f : Except Err Unit → M α} {Q : Except Err α → World → Prop}
    (herr : ∀ e, wp World.sem (f (.error e)) Q w)
    (hok : wp World.sem (f (.ok ())) Q
      { w with store := { w.store with forwards := w.store.forwards.put rule.id rule } }) :
    wp World.sem (storeCall (.putPortForward rule) >>= f) Q w := by
  refine (wp_call _ _ _ _).mpr ⟨trivial, ?_⟩
  rintro r w' ⟨x, hexec⟩
  obtain ⟨s, hs, rfl⟩ := World.exec_store hexec
  rcases fallible_ok hs with ⟨-, ⟨e, rfl⟩, rfl⟩ | ⟨-, rfl, rfl⟩
  · exact herr e
  · exact hok

end Scoped

/-! ### Each request -/

section Requests

variable {vmID : String} {w : World}

theorem wp_update {portID : String} (hown : w.store.OwnRule vmID portID) (opts : PortForwarder.UpdateOptions) :
    wp World.sem (PortForwarder.update portID opts) (fun _ w' => w.store.OthersKept vmID w'.store) w := by
  have hsame : w.store.OthersKept vmID w.store := .refl vmID _
  refine wp_listed (fun e => hsame) ?_
  cases hfind : w.store.forwards.values.find? (·.id = portID) with
  | none => exact (wp_throw _ _ _).mpr hsame
  | some fwd =>
      have hid : fwd.id = portID := by simpa using List.find?_some hfind
      simp only
      rw [bind_eq, wp_bind]
      refine wp_putRule (fun e => (wp_throw _ _ _).mpr hsame) ?_
      refine (wp_ret _ _ _).mpr ((wp_ret _ _ _).mpr (hsame.put ?_))
      exact hid.symm ▸ hown

theorem wp_getVM {id : String} {α : Type} {f : VM → M α} {Q : Except Err α → World → Prop}
    (herr : ∀ e, Q (.error e) w)
    (hok : ∀ vm, w.store.vms.get? id = some vm → wp World.sem (f vm) Q w) :
    wp World.sem (getVM id >>= f) Q w := by
  rw [bind_eq, wp_bind]
  refine (wp_call _ _ _ _).mpr ⟨trivial, ?_⟩
  rintro r w' ⟨x, hexec⟩
  obtain ⟨s, hs, rfl⟩ := World.exec_store hexec
  obtain ⟨rfl, hstored⟩ := StoreState.exec_getVM hs
  cases r with
  | error e => exact (wp_throw _ _ _).mpr (herr e)
  | ok vm => exact (wp_ret _ _ _).mpr (hok vm (hstored vm rfl))

/-- A VM that is had with an address may be had so. -/
theorem wp_get {α : Type} {f : VM → M α} {Q : Except Err α → World → Prop}
    (herr : ∀ e w', w.Later w' → Q (.error e) w')
    (hok : ∀ vm vm' w', w.store.vms.get? vmID = some vm → w.Later w' →
      (vm'.ip ≠ "" → vm.MayHaveIP w) → wp World.sem (f vm') Q w') :
    wp World.sem (Manager.get vmID >>= f) Q w := by
  rw [bind_eq, wp_bind]
  refine wp_getVM (fun e => herr e w ⟨rfl, le_rfl⟩) fun vm hstored => ?_
  rw [bind_eq, wp_bind]
  unfold Manager.refresh
  refine (wp_call _ _ _ _).mpr ⟨trivial, ?_⟩
  rintro r w' ⟨x, hexec⟩
  have hlater : w.Later w' := ⟨World.exec_offStore (by exact trivial) hexec, World.exec_clock hexec⟩
  obtain ⟨v, hv, rfl⟩ := World.exec_virt hexec
  cases r with
  | error e =>
      refine (wp_ret _ _ _).mpr ((wp_ret _ _ _).mpr ?_)
      exact hok vm _ _ hstored hlater .inr
  | ok dom =>
      have hthere : (w.virt.findName? vm.name).isSome = true := by
        rcases fallible_eq hv with ⟨e, he, -⟩ | ⟨a, -, ha, -⟩
        · simp at he
        · cases hd : w.virt.findName? vm.name with
          | none => simp [hd] at ha
          | some d => rfl
      refine wp_later_bind (offStore_domainStateToVMState dom) (fun e w' h => ?_) fun state w' h => ?_
      · exact herr e w' (hlater.trans h)
      refine wp_later_bind (offStore_virtCall _) (fun e w'' h' => ?_) fun ip w'' h' => ?_
      · exact herr e w'' ((hlater.trans h).trans h')
      · refine (wp_ret _ _ _).mpr ((wp_ret _ _ _).mpr ?_)
        exact hok vm _ w'' hstored ((hlater.trans h).trans h') fun _ => .inl hthere

theorem StoreState.RulesKeyed.find?_eq (hkeyed : w.store.RulesKeyed) {portID : String} {fwd : PortForward}
    (hget : w.store.forwards.get? portID = some fwd) :
    w.store.forwards.values.find? (·.id = portID) = some fwd := by
  have hmem : fwd ∈ w.store.forwards.values := Bucket.mem_values.mpr ⟨portID, hget⟩
  obtain ⟨fwd', hfind⟩ : ∃ fwd', w.store.forwards.values.find? (·.id = portID) = some fwd' := by
    rw [← Option.isSome_iff_exists, List.find?_isSome]
    exact ⟨fwd, hmem, by simpa using hkeyed portID fwd hget⟩
  have hid : fwd'.id = portID := by simpa using List.find?_some hfind
  obtain ⟨id, hid'⟩ := Bucket.mem_values.mp (List.mem_of_find?_eq_some hfind)
  obtain rfl : id = portID := (hkeyed id fwd' hid').symm.trans hid
  rw [hfind, ← hget, hid']

end Requests

end VMSmith
