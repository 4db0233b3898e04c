/-
`sort.Slice`: the elements in an order in which none is less than one before it.

Elements of which neither is less may come out either way around.  `sort.SliceStable`
leaves those as they stand.
-/
import Mathlib.Data.List.Sort

namespace Go

variable {α : Type}

structure SliceSort (less : α → α → Bool) where
  sort : List α → List α
  perm : ∀ xs, (sort xs).Perm xs
  sorted : ∀ xs, (sort xs).Pairwise fun a b => less b a = false

/-- Elements sorted by a key, those of one key in the order they had. -/
def SliceSort.byKey {κ : Type} [LinearOrder κ] {less : α → α → Bool} (key : α → κ)
    (hless : ∀ a b, less a b = decide (key a < key b)) : SliceSort less where
  sort := List.insertionSort fun a b => less b a = false
  perm := List.perm_insertionSort _
  sorted := by
    have hle : ∀ a b, less b a = false ↔ key a ≤ key b := fun a b => by
      rw [hless, decide_eq_false_iff_not, not_lt]
    have : Std.Total fun a b : α => less b a = false := ⟨fun a b => by
      rw [hle, hle]
      exact le_total _ _⟩
    have : IsTrans α fun a b => less b a = false := ⟨fun a b c hab hbc => by
      rw [hle] at *
      exact hab.trans hbc⟩
    exact List.pairwise_insertionSort _

theorem insertionSort_pairwise {κ : Type} [LinearOrder κ] (key : α → κ) (xs : List α) :
    (xs.insertionSort fun a b => key a ≤ key b).Pairwise fun a b => key a ≤ key b := by
  have : Std.Total fun a b : α => key a ≤ key b := ⟨fun a b => le_total _ _⟩
  have : IsTrans α fun a b => key a ≤ key b := ⟨fun a b c hab hbc => hab.trans hbc⟩
  exact List.pairwise_insertionSort _ xs

/-- Elements sorted by a key that also tells apart some of which neither is less. -/
def SliceSort.byFinerKey {κ : Type} [LinearOrder κ] {less : α → α → Bool} (key : α → κ)
    (hless : ∀ a b, less a b = true → key a < key b) : SliceSort less where
  sort := List.insertionSort fun a b => key a ≤ key b
  perm := List.perm_insertionSort _
  sorted := fun xs => (insertionSort_pairwise key xs).imp fun {a b} hle => by
    by_contra h
    rw [Bool.not_eq_false] at h
    exact absurd (hless b a h) (not_lt.mpr hle)

/-- Before one of the first `k` stand all that are less, so they are fewer. -/
theorem SliceSort.fewer_less {less : α → α → Bool} (S : SliceSort less) (hirrefl : ∀ a, less a a = false)
    {xs : List α} {x : α} {k : Nat} (h : x ∈ (S.sort xs).take k) : (xs.filter (less · x)).length < k := by
  obtain ⟨before, after, hsplit⟩ := List.append_of_mem h
  have hsorted := S.sorted xs
  rw [← List.take_append_drop k (S.sort xs), hsplit, List.append_assoc, List.cons_append] at hsorted
  have hafter : (x :: (after ++ (S.sort xs).drop k)).filter (less · x) = [] := by
    refine List.filter_eq_nil_iff.mpr fun y hy => ?_
    rw [Bool.not_eq_true]
    rcases List.mem_cons.mp hy with rfl | hy
    · exact hirrefl y
    · exact (List.pairwise_cons.mp (List.pairwise_append.mp hsorted).2.1).1 y hy
  have hlength : (before ++ x :: after).length ≤ k := hsplit ▸ List.length_take_le k _
  rw [List.length_append, List.length_cons] at hlength
  rw [← ((S.perm xs).filter _).length_eq, ← List.take_append_drop k (S.sort xs), hsplit, List.append_assoc,
    List.cons_append, List.filter_append, hafter, List.append_nil]
  have := List.length_filter_le (less · x) before
  omega

/-- One that only elements with `p` stand before, and they are fewer than `k`, is among the first `k`. -/
theorem mem_take_of_before {xs : List α} {x : α} {p : α → Bool} {k : Nat} (hx : x ∈ xs)
    (hbefore : ∀ before after, xs = before ++ x :: after → ∀ y ∈ before, p y = true)
    (hk : (xs.filter p).length < k) : x ∈ xs.take k := by
  obtain ⟨before, after, rfl⟩ := List.append_of_mem hx
  have hall : before.filter p = before := List.filter_eq_self.mpr (hbefore before after rfl)
  rw [List.filter_append, hall, List.length_append] at hk
  rw [List.take_append, List.take_of_length_le (by omega)]
  refine List.mem_append_right _ ?_
  rw [show k - before.length = (k - before.length - 1) + 1 by omega, List.take_succ_cons]
  exact List.mem_cons_self

/-- `sort.SliceStable`. -/
def sliceStable (less : α → α → Bool) (xs : List α) : List α :=
  xs.insertionSort fun a b => less b a = false

theorem sliceStable_perm (less : α → α → Bool) (xs : List α) : (sliceStable less xs).Perm xs :=
  List.perm_insertionSort _ xs

section ByKey

variable {κ : Type} [LinearOrder κ] {less : α → α → Bool} {key : α → κ}

/-- Sorted by a key, the keys ascend. -/
theorem sliceStable_pairwise (hless : ∀ a b, less a b = decide (key a < key b)) (xs : List α) :
    (sliceStable less xs).Pairwise fun a b => key a ≤ key b :=
  ((SliceSort.byKey key hless).sorted xs).imp fun {a b} h => by
    rw [hless, decide_eq_false_iff_not, not_lt] at h
    exact h

theorem insertionSort_congr {r r' : α → α → Prop} [DecidableRel r] [DecidableRel r'] {xs : List α}
    (h : xs.Pairwise fun a b => r a b ↔ r' a b) : xs.insertionSort r = xs.insertionSort r' := by
  induction xs with
  | nil => rfl
  | cons x rest ih =>
      obtain ⟨hx, hrest⟩ := List.pairwise_cons.mp h
      rw [List.insertionSort_cons, List.insertionSort_cons, ih hrest]
      have hmem : ∀ b ∈ rest.insertionSort r', r x b ↔ r' x b := fun b hb =>
        hx b ((List.mem_insertionSort r').mp hb)
      generalize rest.insertionSort r' = sorted at hmem
      induction sorted with
      | nil => rfl
      | cons y more ihSorted =>
          have hy := hmem y List.mem_cons_self
          have hmore := ihSorted fun b hb => hmem b (List.mem_cons_of_mem _ hb)
          unfold List.orderedInsert
          simp only [hy, hmore]

/-- With the comparison turned around by a negation the keys descend, as long as no two of
them are the same. -/
theorem sliceStable_not_pairwise (hless : ∀ a b, less a b = decide (key a < key b)) {xs : List α}
    (hxs : xs.Pairwise fun a b => key a ≠ key b) :
    (sliceStable (fun a b => !less a b) xs).Pairwise fun a b => key b < key a := by
  have hcongr : sliceStable (fun a b => !less a b) xs =
      xs.insertionSort fun a b => key b ≤ key a := by
    refine insertionSort_congr (hxs.imp fun {a b} hab => ?_)
    change (!less b a) = false ↔ _
    rw [hless, Bool.not_eq_false', decide_eq_true_eq]
    exact ⟨le_of_lt, fun hle => lt_of_le_of_ne hle (Ne.symm hab)⟩
  have : Std.Total fun a b : α => key b ≤ key a := ⟨fun a b => le_total _ _⟩
  have : IsTrans α fun a b => key b ≤ key a := ⟨fun a b c hab hbc => hbc.trans hab⟩
  have hsorted : (xs.insertionSort fun a b => key b ≤ key a).Pairwise fun a b => key b ≤ key a :=
    List.pairwise_insertionSort _ xs
  have hne : (xs.insertionSort fun a b => key b ≤ key a).Pairwise fun a b => key a ≠ key b :=
    hxs.perm (List.perm_insertionSort _ xs).symm fun {a b} h => h.symm
  rw [hcongr]
  exact (hsorted.and hne).imp fun {a b} h => lt_of_le_of_ne h.1 (Ne.symm h.2)

end ByKey

end Go
