/-
The store: the buckets the manager and the port forwarder keep their records in.

One command is one transaction, so a command is what no other caller can come
between.
-/
import VMSmith.Lib.Bucket
import VMSmith.Types.VM

namespace VMSmith

/-- A stored port-forward rule. -/
structure PortForward where
  id : String
  vmID : String
  hostPort : Int
  guestPort : Int
  guestIP : String
  protocol : String
  description : String := ""
  tags : List String := []
  deriving DecidableEq, Repr

/-- What the outside world decides about one command. -/
structure Choice where
  /-- The command fails, with no effect. -/
  fail : Option Err := none
  /-- Which of two ways it goes, where it can go either way. -/
  flag : Bool := false
  nat : Nat := 0
  text : String := ""
  texts : List String := []
  path : HostPath := []
  deriving DecidableEq, Repr

/-- A command that can fail: on the world's decision, or for a reason of its own. -/
def fallible {σ α : Type} (x : Choice) (s : σ) (act : Except Err (α × σ)) :
    Option (Except Err α × σ) :=
  match x.fail with
  | some e => some (.error e, s)
  | none =>
      match act with
      | .ok (a, s') => some (.ok a, s')
      | .error e => some (.error e, s)

/-- A fallible command ends in an error and no effect, or as the action does. -/
theorem fallible_eq {σ α : Type} {x : Choice} {s s' : σ} {act : Except Err (α × σ)}
    {r : Except Err α} (h : fallible x s act = some (r, s')) :
    (∃ e, r = .error e ∧ s' = s) ∨ ∃ a, x.fail = none ∧ act = .ok (a, s') ∧ r = .ok a := by
  simp only [fallible] at h
  cases hx : x.fail with
  | some e =>
      simp only [hx, Option.some.injEq, Prod.mk.injEq] at h
      exact .inl ⟨e, h.1.symm, h.2.symm⟩
  | none =>
      cases hact : act with
      | error e =>
          simp only [hx, hact, Option.some.injEq, Prod.mk.injEq] at h
          exact .inl ⟨e, h.1.symm, h.2.symm⟩
      | ok p =>
          obtain ⟨a, t⟩ := p
          simp only [hx, hact, Option.some.injEq, Prod.mk.injEq] at h
          exact .inr ⟨a, rfl, by rw [h.2], h.1.symm⟩

/-- A command that fails only on the world's decision. -/
theorem fallible_ok {σ α : Type} {x : Choice} {s s' t : σ} {a : α} {r : Except Err α}
    (h : fallible x s (.ok (a, t)) = some (r, s')) :
    (x.fail.isSome ∧ (∃ e, r = .error e) ∧ s' = s) ∨ (x.fail = none ∧ r = .ok a ∧ s' = t) := by
  simp only [fallible] at h
  cases hx : x.fail with
  | some e =>
      simp only [hx, Option.some.injEq, Prod.mk.injEq] at h
      exact .inl ⟨rfl, ⟨e, h.1.symm⟩, h.2.symm⟩
  | none =>
      simp only [hx, Option.some.injEq, Prod.mk.injEq] at h
      exact .inr ⟨rfl, h.1.symm, h.2.symm⟩

inductive StoreCmd where
  | getVM (id : String)
  | listVMs
  | putVM (vm : VM)
  | deleteVM (id : String)
  | putSnapshotTags (vmID name : String) (tags : List String)
  | getSnapshotTags (vmID name : String)
  | listSnapshotTags (vmID : String)
  | deleteSnapshotTags (vmID name : String)
  | listPortForwards
  | putPortForward (rule : PortForward)
  | deletePortForward (id : String)
  deriving DecidableEq, Repr

@[reducible] def StoreCmd.Resp : StoreCmd → Type
  | .getVM _ => Except Err VM
  | .listVMs => Except Err (List VM)
  | .getSnapshotTags _ _ => Except Err (List String)
  | .listSnapshotTags _ => Except Err (List (String × List String))
  | .listPortForwards => Except Err (List PortForward)
  | _ => Except Err Unit

/-- The buckets. -/
structure StoreState where
  vms : Bucket String VM := Bucket.empty
  snapshotTags : List ((String × String) × List String) := []
  forwards : Bucket String PortForward := Bucket.empty
  deriving DecidableEq

namespace StoreState

/-- One transaction. -/
def exec (s : StoreState) (x : Choice) : (c : StoreCmd) → Option (c.Resp × StoreState)
  | .getVM id => fallible x s <|
      match s.vms.get? id with
      | some vm => .ok (vm, s)
      | none => .error (.ext ("vms/" ++ id ++ ": not found"))
  | .listVMs => fallible x s (.ok (s.vms.values, s))
  | .putVM vm => fallible x s (.ok ((), { s with vms := s.vms.put vm.id vm }))
  | .deleteVM id => fallible x s (.ok ((), { s with vms := s.vms.erase id }))
  | .putSnapshotTags vmID name tags =>
      let others := s.snapshotTags.filter (·.1 ≠ (vmID, name))
      let kept := if tags = [] then others else ((vmID, name), tags) :: others
      fallible x s (.ok ((), { s with snapshotTags := kept }))
  | .getSnapshotTags vmID name =>
      fallible x s (.ok ((s.snapshotTags.lookup (vmID, name)).getD [], s))
  | .listSnapshotTags vmID =>
      let records := s.snapshotTags.filter (·.1.1 = vmID)
      fallible x s (.ok (records.map fun record => (record.1.2, record.2), s))
  | .deleteSnapshotTags vmID name =>
      fallible x s (.ok ((), { s with snapshotTags := s.snapshotTags.filter (·.1 ≠ (vmID, name)) }))
  | .listPortForwards => fallible x s (.ok (s.forwards.values, s))
  | .putPortForward rule =>
      fallible x s (.ok ((), { s with forwards := s.forwards.put rule.id rule }))
  | .deletePortForward id =>
      fallible x s (.ok ((), { s with forwards := s.forwards.erase id }))

/-- Every record is stored under its own ID. -/
def Keyed (s : StoreState) : Prop := ∀ id vm, s.vms.get? id = some vm → vm.id = id

variable {s s' : StoreState} {x : Choice}

/-- A read changes nothing, and gives what is stored. -/
theorem exec_getVM {id : String} {r : Except Err VM} (h : s.exec x (.getVM id) = some (r, s')) :
    s' = s ∧ ∀ vm, r = .ok vm → s.vms.get? id = some vm := by
  simp only [exec] at h
  rcases fallible_eq h with ⟨e, rfl, rfl⟩ | ⟨vm, -, hact, rfl⟩
  · exact ⟨rfl, fun vm hvm => by simp at hvm⟩
  · cases hget : s.vms.get? id with
    | none => simp [hget] at hact
    | some stored =>
        simp only [hget, Except.ok.injEq, Prod.mk.injEq] at hact
        refine ⟨hact.2.symm, fun v hv => ?_⟩
        rw [Except.ok.injEq] at hv
        rw [← hv, hact.1]

theorem exec_listVMs {r : Except Err (List VM)} (h : s.exec x .listVMs = some (r, s')) :
    s' = s ∧ ∀ vms, r = .ok vms → x.fail = none ∧ vms = s.vms.values := by
  simp only [exec] at h
  rcases fallible_eq h with ⟨e, rfl, rfl⟩ | ⟨vms, hx, hact, rfl⟩
  · exact ⟨rfl, fun vms hvms => by simp at hvms⟩
  · simp only [Except.ok.injEq, Prod.mk.injEq] at hact
    refine ⟨hact.2.symm, fun v hv => ⟨hx, ?_⟩⟩
    rw [Except.ok.injEq] at hv
    rw [← hv, hact.1]

/-- A write puts the record under its ID, or fails and changes nothing. -/
theorem exec_putVM {vm : VM} {r : Except Err Unit} (h : s.exec x (.putVM vm) = some (r, s')) :
    (x.fail = none ∧ r = .ok () ∧ s' = { s with vms := s.vms.put vm.id vm }) ∨
      ∃ e, r = .error e ∧ s' = s := by
  simp only [exec] at h
  rcases fallible_eq h with ⟨e, rfl, rfl⟩ | ⟨_, hx, hact, rfl⟩
  · exact .inr ⟨e, rfl, rfl⟩
  · simp only [Except.ok.injEq, Prod.mk.injEq, true_and] at hact
    exact .inl ⟨hx, rfl, hact.symm⟩

theorem exec_deleteVM {id : String} {r : Except Err Unit}
    (h : s.exec x (.deleteVM id) = some (r, s')) :
    (r = .ok () ∧ s' = { s with vms := s.vms.erase id }) ∨ ∃ e, r = .error e ∧ s' = s := by
  simp only [exec] at h
  rcases fallible_eq h with ⟨e, rfl, rfl⟩ | ⟨_, -, hact, rfl⟩
  · exact .inr ⟨e, rfl, rfl⟩
  · simp only [Except.ok.injEq, Prod.mk.injEq, true_and] at hact
    exact .inl ⟨rfl, hact.symm⟩

theorem Keyed.put (h : s.Keyed) (vm : VM) : Keyed { s with vms := s.vms.put vm.id vm } := by
  intro id v hv
  rcases Bucket.mem_put hv with ⟨rfl, rfl⟩ | ⟨-, hold⟩
  · rfl
  · exact h id v hold

theorem Keyed.erase (h : s.Keyed) (id : String) : Keyed { s with vms := s.vms.erase id } := by
  intro i v hv
  exact h i v (Bucket.mem_erase.mp hv).2

end StoreState

end VMSmith
