/-
Runs of a labelled transition system.

A system is a partial step function: `step s l` is the state after label `l`, or
`none` when `l` is not enabled in `s`.  A schedule is a list of labels, and a
property of every interleaving is a property of every schedule.

`Guarded` restricts a schedule to steps taken in states that meet a condition.
It is how a result of the form "as long as no step does X, every state satisfies
Y" is stated, and `exec_invariant` is how one is proved: an invariant kept by
every guarded step survives every guarded schedule.
-/
import Mathlib.Data.Option.Basic
import Mathlib.Logic.Basic

namespace Run

variable {σ ℓ : Type}

/-- The state a schedule leads to, if each of its labels is enabled in turn. -/
def exec (step : σ → ℓ → Option σ) : σ → List ℓ → Option σ
  | s, [] => some s
  | s, l :: ls =>
      match step s l with
      | none => none
      | some s' => exec step s' ls

/-- Every step of the schedule is taken in a state that meets `guard`. -/
def Guarded (step : σ → ℓ → Option σ) (guard : σ → ℓ → Prop) : σ → List ℓ → Prop
  | _, [] => True
  | s, l :: ls => guard s l ∧ ∀ s', step s l = some s' → Guarded step guard s' ls

/-- `s` is the state some schedule from `init` leads to. -/
def Reachable (step : σ → ℓ → Option σ) (init s : σ) : Prop :=
  ∃ ls, exec step init ls = some s

variable {step : σ → ℓ → Option σ} {guard : σ → ℓ → Prop}

@[simp] theorem exec_nil (s : σ) : exec step s [] = some s := rfl

theorem exec_cons {s t : σ} {l : ℓ} {ls : List ℓ} :
    exec step s (l :: ls) = some t ↔ ∃ s', step s l = some s' ∧ exec step s' ls = some t := by
  simp only [exec]
  cases h : step s l with
  | none => simp
  | some s' => simp

/-- **The invariant rule.**  What every guarded step keeps, every guarded schedule
keeps. -/
theorem exec_invariant (I : σ → Prop)
    (hstep : ∀ s l s', I s → guard s l → step s l = some s' → I s') :
    ∀ (ls : List ℓ) (s t : σ), I s → Guarded step guard s ls → exec step s ls = some t → I t := by
  intro ls
  induction ls with
  | nil =>
      intro s t hs _ ht
      simp only [exec_nil, Option.some.injEq] at ht
      exact ht ▸ hs
  | cons l ls ih =>
      intro s t hs hg ht
      obtain ⟨s', hs', ht'⟩ := exec_cons.mp ht
      exact ih s' t (hstep s l s' hs hg.1 hs') (hg.2 s' hs') ht'

theorem guarded_cons {s : σ} {l : ℓ} {ls : List ℓ} :
    Guarded step guard s (l :: ls) ↔
      guard s l ∧ match step s l with
        | none => True
        | some s' => Guarded step guard s' ls := by
  simp only [Guarded]
  cases step s l with
  | none => simp
  | some s' => simp

/-- A guarded schedule in two parts. -/
theorem guarded_append {ls ms : List ℓ} {s t : σ} (h : Guarded step guard s (ls ++ ms))
    (ht : exec step s ls = some t) : Guarded step guard s ls ∧ Guarded step guard t ms := by
  induction ls generalizing s with
  | nil =>
      simp only [exec_nil, Option.some.injEq] at ht
      exact ⟨trivial, ht ▸ h⟩
  | cons l ls ih =>
      obtain ⟨s', hs', ht'⟩ := exec_cons.mp ht
      have hrest := ih (h.2 s' hs') ht'
      refine ⟨⟨h.1, fun s'' hs'' => ?_⟩, hrest.2⟩
      obtain rfl := Option.some.inj (hs'.symm.trans hs'')
      exact hrest.1

/-- Where each step meets the guard just when it leads to a state with `P`, a schedule is guarded
just when every state on its way has `P`. -/
theorem guarded_iff_always {I P : σ → Prop} (hiff : ∀ s l s', I s → step s l = some s' → (P s' ↔ guard s l))
    (hkeep : ∀ s l s', I s → guard s l → step s l = some s' → I s') :
    ∀ (ls : List ℓ) (s t : σ), I s → P s → exec step s ls = some t →
      (Guarded step guard s ls ↔ ∀ ms u, ms <+: ls → exec step s ms = some u → P u) := by
  intro ls
  induction ls with
  | nil =>
      intro s t _ hP _
      refine ⟨fun _ ms u hms hu => ?_, fun _ => trivial⟩
      obtain rfl := List.prefix_nil.mp hms
      exact Option.some.inj hu ▸ hP
  | cons l ls ih =>
      intro s t hI hP ht
      obtain ⟨s', hs', ht'⟩ := exec_cons.mp ht
      constructor
      · intro hg ms u hms hu
        cases ms with
        | nil => exact Option.some.inj hu ▸ hP
        | cons m ms =>
            obtain ⟨rfl, hrest⟩ := List.cons_prefix_cons.mp hms
            obtain ⟨s'', hs'', hu'⟩ := exec_cons.mp hu
            obtain rfl := Option.some.inj (hs'.symm.trans hs'')
            have hP' := (hiff s m s' hI hs').mpr hg.1
            exact (ih s' t (hkeep s m s' hI hg.1 hs') hP' ht').mp (hg.2 s' hs') ms u hrest hu'
      · intro hall
        have hone : exec step s [l] = some s' := exec_cons.mpr ⟨s', hs', rfl⟩
        have hP' := hall [l] s' (List.cons_prefix_cons.mpr ⟨rfl, List.nil_prefix⟩) hone
        have hg := (hiff s l s' hI hs').mp hP'
        refine ⟨hg, fun s'' hs'' => ?_⟩
        obtain rfl := Option.some.inj (hs'.symm.trans hs'')
        refine (ih s' t (hkeep s l s' hI hg hs') hP' ht').mpr fun ms u hms hu => ?_
        exact hall (l :: ms) u (List.cons_prefix_cons.mpr ⟨rfl, hms⟩) (exec_cons.mpr ⟨s', hs', hu⟩)

/-- Whether a schedule is guarded can be computed when each condition can. -/
instance decidableGuarded [∀ s l, Decidable (guard s l)] :
    ∀ (s : σ) (ls : List ℓ), Decidable (Guarded step guard s ls)
  | _, [] => isTrue trivial
  | s, l :: ls =>
      have : Decidable (match step s l with
          | none => True
          | some s' => Guarded step guard s' ls) :=
        match step s l with
        | none => isTrue trivial
        | some s' => decidableGuarded s' ls
      decidable_of_iff _ guarded_cons.symm

/-- Where a condition implies another as long as the invariant it keeps holds, a schedule guarded
by the one is guarded by the other. -/
theorem guarded_of_invariant {guard' : σ → ℓ → Prop} (I : σ → Prop)
    (hkeep : ∀ s l s', I s → guard s l → step s l = some s' → I s')
    (himp : ∀ s l, I s → guard s l → guard' s l) :
    ∀ (ls : List ℓ) (s : σ), I s → Guarded step guard s ls → Guarded step guard' s ls := by
  intro ls
  induction ls with
  | nil => intro s _ _; exact trivial
  | cons l ls ih =>
      intro s hI hg
      refine ⟨himp s l hI hg.1, fun s' hs' => ?_⟩
      exact ih s' (hkeep s l s' hI hg.1 hs') (hg.2 s' hs')

/-- With no condition on the steps every schedule is guarded. -/
theorem guarded_true (s : σ) (ls : List ℓ) : Guarded step (fun _ _ => True) s ls := by
  induction ls generalizing s with
  | nil => exact trivial
  | cons l ls ih => exact ⟨trivial, fun s' _ => ih s'⟩

/-- What holds at the end of a run held at its start, or some state on the way brought it
about. -/
theorem exec_since {C P : σ → Prop}
    (hstep : ∀ s l s', step s l = some s' → C s' → C s ∨ P s) :
    ∀ (ls : List ℓ) (s t : σ), exec step s ls = some t → C t →
      C s ∨ ∃ ms u, ms <+: ls ∧ exec step s ms = some u ∧ P u := by
  intro ls
  induction ls with
  | nil =>
      intro s t ht hC
      simp only [exec_nil, Option.some.injEq] at ht
      exact .inl (ht ▸ hC)
  | cons l ls ih =>
      intro s t ht hC
      obtain ⟨s', hs', ht'⟩ := exec_cons.mp ht
      rcases ih s' t ht' hC with hstart | ⟨ms, u, hms, hu, hP⟩
      · rcases hstep s l s' hs' hstart with hbefore | hP
        · exact .inl hbefore
        · exact .inr ⟨[], s, List.nil_prefix, rfl, hP⟩
      · exact .inr ⟨l :: ms, u, List.cons_prefix_cons.mpr ⟨rfl, hms⟩, exec_cons.mpr ⟨s', hs', hu⟩, hP⟩

/-- An invariant of every step holds in every reachable state. -/
theorem reachable_invariant (I : σ → Prop) {init t : σ} (h0 : I init)
    (hstep : ∀ s l s', I s → step s l = some s' → I s') (h : Reachable step init t) : I t := by
  obtain ⟨ls, hls⟩ := h
  exact exec_invariant I (fun s l s' hs _ => hstep s l s' hs) ls init t h0
    (guarded_true init ls) hls

end Run
