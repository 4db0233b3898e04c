/-
Spending that is paid for from a level.

A machine is metered when what it spends goes off a level that never exceeds a burst and
rises no faster than a rate.  Over a window of time it can then spend the burst and what
the window lets rise, and no more.  The bound is a potential argument: at the first event
in the window the level is at most the burst, and every spending after that is matched by
a fall.
-/
import Mathlib.Algebra.Order.Field.Basic
import Mathlib.Tactic.Linarith
import Mathlib.Tactic.Ring

variable {K σ ε : Type*} [Field K] [LinearOrder K] [IsStrictOrderedRing K]

/-- `level` is what `s` could spend at an instant, as long as it is `ready` for it. -/
structure Metered (rate burst : K) (next : σ → ε → σ) (time : ε → K) (spends : σ → ε → Bool)
    (ready : σ → K → Prop) (level : σ → K → K) : Prop where
  rate_nonneg : 0 ≤ rate
  capped : ∀ {s t}, ready s t → level s t ≤ burst
  solvent : ∀ {s t}, ready s t → 0 ≤ level s t
  later : ∀ {s t t'}, ready s t → t ≤ t' → ready s t'
  rises : ∀ {s t t'}, ready s t → t ≤ t' → level s t' ≤ level s t + rate * (t' - t)
  stays : ∀ {s e}, ready s (time e) → ready (next s e) (time e)
  pays : ∀ {s e}, ready s (time e) →
    level (next s e) (time e) + (if spends s e then 1 else 0) ≤ level s (time e)

/-- How many of the events between two instants spend. -/
def spentWithin (next : σ → ε → σ) (time : ε → K) (spends : σ → ε → Bool) (lo hi : K) :
    σ → List ε → ℕ
  | _, [] => 0
  | s, e :: es =>
      (if lo ≤ time e ∧ time e ≤ hi ∧ spends s e = true then 1 else 0) +
        spentWithin next time spends lo hi (next s e) es

namespace Metered

variable {rate burst : K} {next : σ → ε → σ} {time : ε → K} {spends : σ → ε → Bool}
  {ready : σ → K → Prop} {level : σ → K → K}

section Late

omit [Field K] [IsStrictOrderedRing K]

/-- What comes after the window does not count. -/
theorem spentWithin_of_after {lo hi : K} : ∀ {es : List ε} {s : σ}, (∀ e ∈ es, hi < time e) →
    spentWithin next time spends lo hi s es = 0 := by
  intro es
  induction es with
  | nil => intro s _; rfl
  | cons e es ih =>
      intro s hafter
      have he := hafter e (by simp)
      rw [spentWithin, if_neg (fun h => absurd h.2.1 (not_le.mpr he)),
        ih (fun e' he' => hafter e' (by simp [he']))]

/-- Nor does anything from an event on that comes after it. -/
theorem spentWithin_of_head_after {lo hi : K} {e : ε} {es : List ε} {s : σ} (he : hi < time e)
    (hsorted : ∀ e' ∈ es, time e ≤ time e') :
    spentWithin next time spends lo hi s (e :: es) = 0 := by
  apply spentWithin_of_after
  intro e' he'
  rcases List.mem_cons.mp he' with heq | hmem
  · rw [heq]
    exact he
  · exact lt_of_lt_of_le he (hsorted e' hmem)

end Late

/-- From an instant on, no more is spent than the level there and what rises after it. -/
theorem spentWithin_le_level (hm : Metered rate burst next time spends ready level) {lo hi : K} :
    ∀ {es : List ε} {s : σ} {t : K}, ready s t → t ≤ hi → (∀ e ∈ es, t ≤ time e) →
      es.Pairwise (fun a b => time a ≤ time b) →
      (spentWithin next time spends lo hi s es : K) ≤ level s t + rate * (hi - t) := by
  intro es
  induction es with
  | nil =>
      intro s t hready ht _ _
      have hrise : 0 ≤ rate * (hi - t) := mul_nonneg hm.rate_nonneg (sub_nonneg.mpr ht)
      have hlevel := hm.solvent hready
      rw [spentWithin, Nat.cast_zero]
      exact add_nonneg hlevel hrise
  | cons e es ih =>
      intro s t hready ht hfrom hsorted
      rw [List.pairwise_cons] at hsorted
      have hte := hfrom e (by simp)
      by_cases he : time e ≤ hi
      · have hthere := hm.later hready hte
        have hrest := ih (hm.stays hthere) he hsorted.1 hsorted.2
        have hpaid := hm.pays hthere
        have hrise := hm.rises hready hte
        have hcount : ((if lo ≤ time e ∧ time e ≤ hi ∧ spends s e = true then 1 else 0 : ℕ) : K) ≤
            if spends s e then 1 else 0 := by
          by_cases hs : spends s e = true
          · rw [if_pos hs]
            split <;> simp
          · rw [if_neg (fun h => hs h.2.2), if_neg hs, Nat.cast_zero]
        have hsplit : rate * (hi - t) = rate * (time e - t) + rate * (hi - time e) := by ring
        rw [spentWithin, Nat.cast_add, hsplit]
        linarith
      · -- the window is over before this event
        rw [spentWithin_of_head_after (not_le.mp he) hsorted.1, Nat.cast_zero]
        exact add_nonneg (hm.solvent hready) (mul_nonneg hm.rate_nonneg (sub_nonneg.mpr ht))

/-- Over a window of length `d` no more is spent than the burst and what `d` lets rise. -/
theorem spentWithin_le (hm : Metered rate burst next time spends ready level) {lo d : K}
    (hd : 0 ≤ d) : ∀ {es : List ε} {s : σ}, (∀ e ∈ es, ready s (time e)) →
      es.Pairwise (fun a b => time a ≤ time b) → 0 ≤ burst →
      (spentWithin next time spends lo (lo + d) s es : K) ≤ burst + rate * d := by
  intro es
  induction es with
  | nil =>
      intro s _ _ hburst
      rw [spentWithin, Nat.cast_zero]
      exact add_nonneg hburst (mul_nonneg hm.rate_nonneg hd)
  | cons e es ih =>
      intro s hready hsorted hburst
      have hthere := hready e (by simp)
      have hlater := (List.pairwise_cons.mp hsorted).1
      by_cases hlo : lo ≤ time e
      · by_cases hhi : time e ≤ lo + d
        · -- the first event in the window: the level is at most the burst
          have hfirst : ∀ e' ∈ e :: es, time e ≤ time e' := by
            intro e' he'
            rcases List.mem_cons.mp he' with heq | hmem
            · rw [heq]
            · exact hlater e' hmem
          have hbound : (spentWithin next time spends lo (lo + d) s (e :: es) : K) ≤
              level s (time e) + rate * (lo + d - time e) :=
            hm.spentWithin_le_level hthere hhi hfirst hsorted
          have hcap := hm.capped hthere
          have hshort : rate * (lo + d - time e) ≤ rate * d :=
            mul_le_mul_of_nonneg_left (by linarith) hm.rate_nonneg
          linarith
        · rw [spentWithin_of_head_after (not_le.mp hhi) hlater, Nat.cast_zero]
          exact add_nonneg hburst (mul_nonneg hm.rate_nonneg hd)
      · rw [spentWithin, if_neg (fun h => hlo h.1), Nat.zero_add]
        refine ih (fun e' he' => ?_) (List.pairwise_cons.mp hsorted).2 hburst
        exact hm.later (hm.stays hthere) (hlater e' he')

end Metered
