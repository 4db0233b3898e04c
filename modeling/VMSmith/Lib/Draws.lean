/-
Programs that draw numbers.

A draw asks for a number below a bound and may fail.  `chance` is how often a program
returns a value when no draw fails and the numbers below a bound are equally likely, and
`Possible` says that it may return it at all.

The second half counts how often a vector is arranged into another one.  The rule is
`rearrangements_succ`: an arrangement of the places up to `i + 1` is one swap of the last
of them, and an arrangement of the places up to `i`.  Swapping from the last place down
therefore makes every arrangement in exactly one way.
-/
import VMSmith.Lib.Prog
import Mathlib

/-- A program over draws, each answered with a number below its bound or an error. -/
abbrev Draws (ε α : Type) := Prog ℕ (fun n => Except ε (Fin n)) ε α

/-- What is said of the values returned may be weakened. -/
theorem Prog.Yields.mono {C : Type} {R : C → Type} {ε α : Type} {φ ψ : α → Prop}
    {p : Prog C R ε α} (hp : Yields φ p) (h : ∀ a, φ a → ψ a) : Yields ψ p := by
  induction hp with
  | ret ha => exact .ret (h _ ha)
  | throw e => exact .throw e
  | call _ ih => exact .call ih

namespace Draws

variable {ε α β : Type}

/-- How often `a` is returned. -/
def chance [DecidableEq α] : Draws ε α → α → ℚ
  | .ret b, a => if b = a then 1 else 0
  | .throw _, _ => 0
  | .call n k, a => (∑ v : Fin n, chance (k (.ok v)) a) / n

@[simp] theorem chance_ret [DecidableEq α] (b a : α) :
    chance (Prog.ret b : Draws ε α) a = if b = a then 1 else 0 := rfl

theorem chance_call [DecidableEq α] (n : ℕ) (k : Except ε (Fin n) → Draws ε α) (a : α) :
    chance (Prog.call n k : Draws ε α) a = (∑ v : Fin n, chance (k (.ok v)) a) / n := rfl

/-- A value is returned unless a draw fails. -/
def Sure : Draws ε α → Prop
  | .ret _ => True
  | .throw _ => False
  | .call n k => 0 < n ∧ ∀ v : Fin n, Sure (k (.ok v))

theorem Sure.bind {p : Draws ε α} {f : α → Draws ε β} (hp : Sure p)
    (hf : ∀ a, Sure (f a)) : Sure (p >>= f) := by
  rw [Prog.bind_eq]
  induction p with
  | ret a => exact hf a
  | throw e => exact hp.elim
  | call n k ih => exact ⟨hp.1, fun v => ih (.ok v) (hp.2 v)⟩

/-- The draws may come out so that `a` is returned. -/
def Possible : Draws ε α → α → Prop
  | .ret b, a => b = a
  | .throw _, _ => False
  | .call n k, a => ∃ v : Fin n, Possible (k (.ok v)) a

theorem Possible.bind {p : Draws ε α} {f : α → Draws ε β} {a : α} {b : β} (hp : Possible p a)
    (hf : Possible (f a) b) : Possible (p >>= f) b := by
  rw [Prog.bind_eq]
  induction p with
  | ret c =>
      obtain rfl : c = a := hp
      exact hf
  | throw e => exact hp.elim
  | call n k ih =>
      obtain ⟨v, hv⟩ := hp
      exact ⟨v, ih (.ok v) hv⟩

theorem Possible.yields {φ : α → Prop} {p : Draws ε α} {a : α} (hp : Possible p a)
    (hy : Prog.Yields φ p) : φ a := by
  induction hy with
  | ret h =>
      obtain rfl := hp
      exact h
  | throw e => exact hp.elim
  | call _ ih =>
      obtain ⟨v, hv⟩ := hp
      exact ih (.ok v) hv

theorem chance_nonneg [DecidableEq α] (p : Draws ε α) (a : α) : 0 ≤ chance p a := by
  induction p with
  | ret b =>
      rw [chance_ret]
      split <;> norm_num
  | throw e => exact le_refl 0
  | call n k ih =>
      rw [chance_call]
      exact div_nonneg (Finset.sum_nonneg fun v _ => ih (.ok v)) (Nat.cast_nonneg n)

/-- What is possible is returned now and then. -/
theorem chance_pos_iff [DecidableEq α] {p : Draws ε α} {a : α} : 0 < chance p a ↔ Possible p a := by
  induction p with
  | ret b =>
      rw [chance_ret]
      by_cases h : b = a
      · simp [h, Possible]
      · simp [h, Possible]
  | throw e => simp [chance, Possible]
  | call n k ih =>
      have hsum : 0 < (∑ v : Fin n, chance (k (.ok v)) a) ↔ ∃ v : Fin n, Possible (k (.ok v)) a := by
        rw [Finset.sum_pos_iff_of_nonneg fun v _ => chance_nonneg (k (.ok v)) a]
        constructor
        · rintro ⟨v, _, hv⟩
          exact ⟨v, (ih (.ok v)).mp hv⟩
        · rintro ⟨v, hv⟩
          exact ⟨v, Finset.mem_univ v, (ih (.ok v)).mpr hv⟩
      rw [chance_call]
      refine Iff.trans ?_ hsum
      constructor
      · intro h
        by_contra hnot
        have hzero := le_antisymm (not_lt.mp hnot) (Finset.sum_nonneg fun v _ => chance_nonneg (k (.ok v)) a)
        rw [hzero, zero_div] at h
        exact lt_irrefl 0 h
      · intro h
        obtain ⟨v, _⟩ := hsum.mp h
        exact div_pos h (Nat.cast_pos.mpr v.pos)

end Draws

namespace Shuffle

open Equiv

variable {n : ℕ}

section Swaps

variable {α : Type}

theorem swapIfInBounds_eq (out : Vector α n) {i j : ℕ} (hi : i < n) (hj : j < n) :
    out.swapIfInBounds i j = out.swap i j := by
  apply Vector.toArray_inj.mp
  rw [Vector.toArray_swapIfInBounds, Array.swapIfInBounds_def, dif_pos (by simpa using hi),
    dif_pos (by simpa using hj), Vector.toArray_swap]

/-- A swap only moves what is there. -/
theorem swapIfInBounds_perm (out : Vector α n) (i j : ℕ) :
    (out.swapIfInBounds i j).toList.Perm out.toList := by
  show (out.swapIfInBounds i j).toArray.toList.Perm out.toArray.toList
  rw [Vector.toArray_swapIfInBounds, Array.swapIfInBounds_def]
  by_cases hi : i < out.toArray.size
  · rw [dif_pos hi]
    by_cases hj : j < out.toArray.size
    · rw [dif_pos hj]
      exact (Array.swap_perm hi hj).toList
    · rw [dif_neg hj]
  · rw [dif_neg hi]

theorem get_swap (out : Vector α n) (x y p : Fin n) :
    (out.swap x y).get p = out.get (swap x y p) := by
  rw [Vector.get_eq_getElem, Vector.get_eq_getElem, Vector.getElem_swap]
  by_cases hx : p = x
  · rw [hx, if_pos rfl, swap_apply_left]
  · rw [if_neg (fun h => hx (Fin.ext h))]
    by_cases hy : p = y
    · rw [hy, if_pos rfl, swap_apply_right]
    · rw [if_neg (fun h => hy (Fin.ext h)), swap_apply_of_ne_of_ne hx hy]

theorem get_mem_take {w : Vector α n} {i : ℕ} (hi : i < n) :
    w.get ⟨i, hi⟩ ∈ w.toList.take (i + 1) := by
  rw [List.mem_take_iff_getElem]
  exact ⟨i, by rw [Vector.length_toList]; omega, by rw [Vector.getElem_toList]; rfl⟩

/-- What is alike from a place on has the same bytes before it. -/
theorem take_perm {w out : Vector α n} {i : ℕ} (hperm : w.toList.Perm out.toList)
    (hlater : ∀ p : Fin n, i ≤ p → w.get p = out.get p) :
    (w.toList.take i).Perm (out.toList.take i) := by
  have hdrop : w.toList.drop i = out.toList.drop i := by
    apply List.ext_getElem
    · simp
    · intro k hk hk'
      have hlt : i + k < n := by simpa [Nat.lt_sub_iff_add_lt'] using hk
      rw [List.getElem_drop, List.getElem_drop, Vector.getElem_toList, Vector.getElem_toList]
      exact hlater ⟨i + k, hlt⟩ (Nat.le_add_right i k)
  rw [← List.take_append_drop i w.toList, ← List.take_append_drop i out.toList, hdrop] at hperm
  exact (List.perm_append_right_iff _).mp hperm

end Swaps

variable {α : Type} [DecidableEq α]

/-- The arrangements of the places up to `i` that make `w` of `out`. -/
def rearrangements (i : ℕ) (out w : Vector α n) : Finset (Perm (Fin n)) :=
  Finset.univ.filter fun σ => (∀ p : Fin n, i < p → σ p = p) ∧ ∀ p : Fin n, w.get p = out.get (σ p)

theorem mem_rearrangements {i : ℕ} {out w : Vector α n} {σ : Perm (Fin n)} :
    σ ∈ rearrangements i out w ↔
      (∀ p : Fin n, i < p → σ p = p) ∧ ∀ p : Fin n, w.get p = out.get (σ p) := by
  simp [rearrangements]

theorem card_rearrangements_zero (out w : Vector α n) :
    (rearrangements 0 out w).card = if out = w then 1 else 0 := by
  have hone : ∀ σ : Perm (Fin n), (∀ p : Fin n, 0 < (p : ℕ) → σ p = p) → σ = 1 := by
    intro σ hfix
    ext p
    by_cases hp : 0 < (p : ℕ)
    · rw [hfix p hp, Perm.one_apply]
    · -- the first place cannot go to a place that is taken
      by_contra hne
      have hpos : 0 < (σ p : ℕ) := by
        rw [Perm.one_apply] at hne
        omega
      have hsame : σ p = p := σ.injective (hfix (σ p) hpos)
      exact hne (by rw [hsame, Perm.one_apply])
  by_cases h : out = w
  · have hsingle : rearrangements 0 out w = {1} := by
      ext σ
      rw [mem_rearrangements, Finset.mem_singleton]
      constructor
      · intro hσ
        exact hone σ hσ.1
      · intro hσ
        rw [hσ, h]
        exact ⟨fun _ _ => rfl, fun _ => rfl⟩
    rw [hsingle, Finset.card_singleton, if_pos h]
  · have hempty : rearrangements 0 out w = ∅ := by
      rw [Finset.eq_empty_iff_forall_notMem]
      intro σ hσ
      obtain ⟨hfix, hw⟩ := mem_rearrangements.mp hσ
      rw [hone σ hfix] at hw
      exact h (Vector.ext fun i hi => (hw ⟨i, hi⟩).symm)
    rw [hempty, Finset.card_empty, if_neg h]

/-- A place up to which all later ones stay stays up to there. -/
theorem apply_le {i : ℕ} {σ : Perm (Fin n)} (hfix : ∀ p : Fin n, i < p → σ p = p) {p : Fin n}
    (hp : (p : ℕ) ≤ i) : (σ p : ℕ) ≤ i := by
  by_contra h
  have hsame : σ p = p := σ.injective (hfix (σ p) (by omega))
  rw [hsame] at h
  exact h hp

theorem rearrangements_succ {i : ℕ} (hi : i + 1 < n) (out w : Vector α n) :
    (rearrangements (i + 1) out w).card =
      ∑ j : Fin (i + 2), (rearrangements i (out.swap (i + 1) j) w).card := by
  rw [← Finset.card_sigma]
  let x : Fin n := ⟨i + 1, hi⟩
  let place : Fin (i + 2) → Fin n := fun j => ⟨j, by omega⟩
  have hmove : ∀ σ ∈ rearrangements (i + 1) out w, (σ x : ℕ) < i + 2 := by
    intro σ hσ
    exact Nat.lt_succ_of_le (apply_le (mem_rearrangements.mp hσ).1 (le_refl (i + 1)))
  refine Finset.card_bij'
    (fun σ hσ => ⟨⟨σ x, hmove σ hσ⟩, swap x (σ x) * σ⟩)
    (fun s _ => swap x (place s.1) * s.2) ?_ ?_ ?_ ?_
  · intro σ hσ
    obtain ⟨hfix, hw⟩ := mem_rearrangements.mp hσ
    rw [Finset.mem_sigma]
    refine ⟨Finset.mem_univ _, mem_rearrangements.mpr ⟨?_, ?_⟩⟩
    · intro p hp
      rw [Perm.mul_apply]
      by_cases hpx : p = x
      · rw [hpx, swap_apply_right]
      · have hlate : i + 1 < (p : ℕ) := by
          have hne : (p : ℕ) ≠ i + 1 := fun h => hpx (Fin.ext h)
          omega
        have hpy : p ≠ σ x := by
          intro h
          have := hmove σ hσ
          rw [h] at hlate
          omega
        rw [hfix p hlate, swap_apply_of_ne_of_ne hpx hpy]
    · intro p
      have hget := get_swap out x (σ x) ((swap x (σ x) * σ) p)
      rw [Perm.mul_apply, swap_apply_self] at hget
      rw [hw p]
      exact hget.symm
  · intro s hs
    obtain ⟨j, τ⟩ := s
    obtain ⟨hfix, hw⟩ := mem_rearrangements.mp (Finset.mem_sigma.mp hs).2
    refine mem_rearrangements.mpr ⟨?_, ?_⟩
    · intro p hp
      have hpx : p ≠ x := fun h => by simp [h, x] at hp
      have hpy : p ≠ place j := fun h => by
        have := j.isLt
        simp only [h, place] at hp
        omega
      rw [Perm.mul_apply, hfix p (by omega), swap_apply_of_ne_of_ne hpx hpy]
    · intro p
      rw [hw p]
      exact get_swap out x (place j) (τ p)
  · intro σ hσ
    exact swap_mul_self_mul x (σ x) σ
  · intro s hs
    obtain ⟨j, τ⟩ := s
    have hfix := (mem_rearrangements.mp (Finset.mem_sigma.mp hs).2).1
    have hx : (swap x (place j) * τ) x = place j := by
      rw [Perm.mul_apply, hfix x (Nat.lt_succ_self i), swap_apply_left]
    have hτ : swap x ((swap x (place j) * τ) x) * (swap x (place j) * τ) = τ := by
      rw [hx, swap_mul_self_mul]
    refine Sigma.ext ?_ ?_
    · apply Fin.ext
      show (((swap x (place j) * τ) x : Fin n) : ℕ) = j
      rw [hx]
    · exact heq_of_eq hτ

end Shuffle
