/-
The world with its failures chosen beforehand.

A set of failing steps says of every command whether it fails on the world's decision,
and how.  What else the world decides stays open.  With no failing step the commands
are answered as their own state allows.
-/
import VMSmith.System.World

namespace VMSmith

/-- The commands that fail, each with its error. -/
abbrev Failing := Cmd → Option Err

/-- No command fails on the world's decision. -/
def calm : Failing := fun _ => none

/-- What a fallible command is answered and leaves. -/
def settle {σ α : Type} (failure : Option Err) (s : σ) (act : Except Err (α × σ)) :
    Except Err α × σ :=
  match failure, act with
  | some e, _ => (.error e, s)
  | none, .ok (a, t) => (.ok a, t)
  | none, .error e => (.error e, s)

theorem fallible_eq_settle {σ α : Type} (x : Choice) (s : σ) (act : Except Err (α × σ)) :
    fallible x s act = some (settle x.fail s act) := by
  unfold fallible settle
  cases x.fail with
  | some e => rfl
  | none =>
      cases act with
      | ok p => rfl
      | error e => rfl

/-- The answer of a command that only the world makes fail. -/
def answer {α : Type} (failure : Option Err) (a : α) : Except Err α :=
  match failure with
  | some e => .error e
  | none => .ok a

@[simp] theorem answer_none {α : Type} (a : α) : answer none a = .ok a := rfl

@[simp] theorem answer_some {α : Type} (e : Err) (a : α) : answer (some e) a = .error e := rfl

theorem fallible_read {σ α : Type} (x : Choice) (s : σ) (a : α) :
    fallible x s (.ok (a, s)) = some (answer x.fail a, s) := by
  unfold fallible answer
  cases x.fail with
  | some e => rfl
  | none => rfl

section Settle

variable {σ α : Type} (s : σ) (e : Err)

@[simp] theorem settle_some (act : Except Err (α × σ)) : settle (some e) s act = (.error e, s) := rfl

@[simp] theorem settle_ok (p : α × σ) : settle none s (.ok p) = (.ok p.1, p.2) := rfl

@[simp] theorem settle_error : settle none s (.error e : Except Err (α × σ)) = (.error e, s) := rfl

end Settle

namespace World

/-- One command, failing as `F` says. -/
def execUnder (F : Failing) (c : Cmd) (x : Choice) (w : World) : Option (c.Resp × World) :=
  if x.fail = F c then exec c x w else none

/-- Commands answered by the world, those of `F` with a failure. -/
abbrev under (F : Failing) : Prog.Sem Cmd Cmd.Resp World := Prog.Sem.ofExec (execUnder F)

variable {F : Failing} {α : Type}

theorem execUnder_eq {c : Cmd} {x : Choice} {w w' : World} {r : c.Resp} :
    execUnder F c x w = some (r, w') ↔ x.fail = F c ∧ exec c x w = some (r, w') := by
  unfold execUnder
  split_ifs with h
  · exact ⟨fun hexec => ⟨h, hexec⟩, And.right⟩
  · exact ⟨fun hnone => absurd hnone (by simp), fun hexec => absurd hexec.1 h⟩

/-- A command whose answer depends on the failing steps only. -/
theorem wp_under {c : Cmd} {r : c.Resp} {w w' : World}
    (h : ∀ x : Choice, x.fail = F c → exec c x w = some (r, w'))
    (Q : Except Err c.Resp → World → Prop) :
    Prog.wp (under F) (Prog.perform c) Q w ↔ Q (.ok r) w' := by
  rw [Prog.wp_perform]
  refine ⟨fun hall => hall.2 r w' ⟨{ fail := F c }, execUnder_eq.mpr ⟨rfl, h _ rfl⟩⟩,
    fun hQ => ⟨trivial, ?_⟩⟩
  rintro r' u ⟨x, hx⟩
  obtain ⟨hx, hexec⟩ := execUnder_eq.mp hx
  rw [h x hx, Option.some.injEq, Prod.mk.injEq] at hexec
  rw [← hexec.1, ← hexec.2]
  exact hQ

/-- What comes after such a command. -/
theorem wp_under_then {c : Cmd} {r : c.Resp} {w w' : World}
    (h : ∀ x : Choice, x.fail = F c → exec c x w = some (r, w')) {f : c.Resp → M α}
    {Q : Except Err α → World → Prop} :
    Prog.wp (under F) (Prog.perform c >>= f) Q w ↔ Prog.wp (under F) (f r) Q w' := by
  rw [Prog.bind_eq, Prog.wp_bind, wp_under h]

/-- A command that may go several ways. -/
theorem wp_under_any {c : Cmd} {w : World} {Q : Except Err c.Resp → World → Prop}
    (h : ∀ x r w', x.fail = F c → exec c x w = some (r, w') → Q (.ok r) w') :
    Prog.wp (under F) (Prog.perform c) Q w := by
  rw [Prog.wp_perform]
  refine ⟨trivial, fun r w' ⟨x, hx⟩ => ?_⟩
  obtain ⟨hx, hexec⟩ := execUnder_eq.mp hx
  exact h x r w' hx hexec

/-- Every command is answered. -/
theorem under_next (c : Cmd) (w : World) : ∃ r w', (under F).next w c r w' := by
  have hexec : ∃ r w', exec c { fail := F c } w = some (r, w') := by
    cases c with
    | store c =>
        cases c <;> simp only [exec, StoreState.exec, fallible_eq_settle, Option.map_some] <;>
          exact ⟨_, _, rfl⟩
    | virt c =>
        cases c with
        | waitForShutoff dom =>
            simp only [exec, VirtState.exec]
            cases w.virt.find? dom with
            | none => exact ⟨_, _, rfl⟩
            | some d =>
                by_cases hoff : d.state = .shutoff
                · exact ⟨true, w, by simp [hoff]⟩
                · exact ⟨false, w, by simp [hoff]⟩
        | getUUIDString dom =>
            simp only [exec, VirtState.exec]
            split_ifs <;> exact ⟨_, _, rfl⟩
        | _ =>
            simp only [exec, VirtState.exec, fallible_eq_settle, Option.map_some]
            exact ⟨_, _, rfl⟩
    | net c =>
        cases c with
        | iptables action rule =>
            cases action <;> simp only [exec, NetState.exec, fallible_eq_settle, Option.map_some] <;>
              exact ⟨_, _, rfl⟩
        | _ =>
            simp only [exec, NetState.exec, fallible_eq_settle, Option.map_some]
            exact ⟨_, _, rfl⟩
    | file c =>
        cases c <;> simp only [exec, FileState.exec, fallible_eq_settle, Option.map_some] <;>
          exact ⟨_, _, rfl⟩
    | host c =>
        cases c <;> simp only [exec, HostState.exec, fallible_eq_settle, Option.map_some] <;>
          exact ⟨_, _, rfl⟩
  obtain ⟨r, w', h⟩ := hexec
  exact ⟨r, w', { fail := F c }, execUnder_eq.mpr ⟨rfl, h⟩⟩

/-- Every program comes to an end. -/
theorem under_ends (F : Failing) (p : M α) (w : World) :
    ∃ res t, Prog.Runs (under F) p w res t := by
  induction p generalizing w with
  | ret a => exact ⟨_, _, .ret a w⟩
  | throw e => exact ⟨_, _, .throw e w⟩
  | call c k ih =>
      obtain ⟨r, w', hnext⟩ := under_next (F := F) c w
      obtain ⟨res, t, hrest⟩ := ih r w'
      exact ⟨res, t, .call hnext hrest⟩

end World

end VMSmith
