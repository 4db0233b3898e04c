/-
Arrays in memory.

A slice is handed around as the place of its array, so that two holders of one place see
each other's writes and a copy is an array at a place of its own.  Places are given out in
order and never again.
-/
import Mathlib.Data.List.Basic

/-- The arrays that were made, in the order they were made. -/
structure Heap (α : Type*) where
  arrays : List (List α)

namespace Heap

variable {α : Type*}

/-- The array at a place, empty where none was made. -/
def get (h : Heap α) (a : ℕ) : List α := h.arrays.getD a []

/-- A new array, and its place. -/
def alloc (h : Heap α) (xs : List α) : ℕ × Heap α := (h.arrays.length, ⟨h.arrays ++ [xs]⟩)

/-- A write to one cell of an array. -/
def set (h : Heap α) (a i : ℕ) (x : α) : Heap α := ⟨h.arrays.set a ((h.get a).set i x)⟩

/-- An array was made there. -/
def Live (h : Heap α) (a : ℕ) : Prop := a < h.arrays.length

theorem get_alloc (h : Heap α) (xs : List α) : (h.alloc xs).2.get (h.alloc xs).1 = xs := by
  simp [get, alloc]

/-- A new array is none of those that were there. -/
theorem get_alloc_of_live {h : Heap α} {a : ℕ} (ha : h.Live a) (xs : List α) :
    (h.alloc xs).2.get a = h.get a := by
  unfold get alloc
  dsimp only
  rw [List.getD_eq_getElem?_getD, List.getElem?_append_left ha, List.getD_eq_getElem?_getD]

theorem live_alloc (h : Heap α) (xs : List α) : (h.alloc xs).2.Live (h.alloc xs).1 := by
  simp [Live, alloc]

theorem Live.alloc {h : Heap α} {a : ℕ} (ha : h.Live a) (xs : List α) : (h.alloc xs).2.Live a := by
  unfold Live Heap.alloc at *
  rw [List.length_append]
  omega

theorem Live.ne_alloc {h : Heap α} {a : ℕ} (ha : h.Live a) (xs : List α) : a ≠ (h.alloc xs).1 :=
  Nat.ne_of_lt ha

theorem Live.set {h : Heap α} {a : ℕ} (ha : h.Live a) (b i : ℕ) (x : α) : (h.set b i x).Live a := by
  unfold Live Heap.set at *
  rw [List.length_set]
  exact ha

theorem get_set {h : Heap α} {a : ℕ} (ha : h.Live a) (i : ℕ) (x : α) :
    (h.set a i x).get a = (h.get a).set i x := by
  unfold get set
  dsimp only
  rw [List.getD_eq_getElem?_getD, List.getElem?_set_self ha]
  rfl

/-- A write leaves every other array alone. -/
theorem get_set_of_ne {a b : ℕ} (hne : a ≠ b) (h : Heap α) (i : ℕ) (x : α) :
    (h.set b i x).get a = h.get a := by
  unfold get set
  dsimp only
  rw [List.getD_eq_getElem?_getD, List.getElem?_set_ne hne.symm, List.getD_eq_getElem?_getD]

/-- A loop that writes to cell after cell of one array leaves the values there that it wrote,
if they are read off another. -/
theorem fill {out : ℕ} (read : Heap α → ℕ → α) (vals : ℕ → α) {h : Heap α} (hlive : h.Live out)
    (hread : ∀ h' : Heap α, (∀ a, a ≠ out → h'.get a = h.get a) → ∀ i, read h' i = vals i) (n : ℕ)
    (hn : n ≤ (h.get out).length) :
    let h' := (List.range n).foldl (fun h i => h.set out i (read h i)) h
    h'.get out = (List.range n).map vals ++ (h.get out).drop n ∧
      (∀ a, a ≠ out → h'.get a = h.get a) ∧ ∀ a, h'.Live a ↔ h.Live a := by
  induction n with
  | zero => simp
  | succ n ih =>
      obtain ⟨hout, hother, hlives⟩ := ih (Nat.le_of_succ_le hn)
      dsimp only at *
      rw [List.range_succ, List.foldl_append, List.foldl_cons, List.foldl_nil]
      generalize hmid : (List.range n).foldl (fun h i => h.set out i (read h i)) h = mid at *
      refine ⟨?_, fun a ha => ?_, fun a => ?_⟩
      · rw [get_set ((hlives out).mpr hlive), hout, hread mid hother, List.map_append,
          List.append_assoc]
        have hlen : ((List.range n).map vals).length = n := by simp
        have hdrop : (h.get out).drop n = (h.get out)[n] :: (h.get out).drop (n + 1) :=
          List.drop_eq_getElem_cons hn
        rw [List.set_append_right _ _ (Nat.le_of_eq hlen), hlen, Nat.sub_self, hdrop, List.set_cons_zero]
        rfl
      · rw [get_set_of_ne ha, hother a ha]
      · have hset : (mid.set out n (read mid n)).Live a ↔ mid.Live a := by
          unfold Live set
          rw [List.length_set]
        rw [hset, hlives]

end Heap
