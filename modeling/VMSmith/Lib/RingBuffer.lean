/-
Circular buffers.

A buffer of fixed capacity, written round and round.  What is read out of it is the last
so many of the values written to it, in the order they were written: `all_push` says so of
one more value, and `pushed` of a run of them.  The arithmetic is all in `slot`: a position
is only ever looked at modulo the capacity.
-/
import Mathlib.Data.List.DropRight

/-- A buffer of `cap` cells; the cell at `head` is the next to be written. -/
structure RingBuffer (α : Type*) where
  buf : List α
  head : ℕ
  size : ℕ
  cap : ℕ
  length_buf : buf.length = cap
  head_lt : head < cap
  size_le : size ≤ cap

namespace RingBuffer

variable {α : Type*}

theorem cap_pos (r : RingBuffer α) : 0 < r.cap := Nat.lt_of_le_of_lt (Nat.zero_le _) r.head_lt

/-- An empty buffer, of at least one cell. -/
def new (capacity : ℤ) (zero : α) : RingBuffer α :=
  let cap := if capacity ≤ 0 then 1 else capacity.toNat
  { buf := List.replicate cap zero, head := 0, size := 0, cap := cap
    length_buf := List.length_replicate
    head_lt := by
      unfold cap
      split <;> omega
    size_le := Nat.zero_le _ }

def push (r : RingBuffer α) (s : α) : RingBuffer α :=
  { buf := r.buf.set r.head s
    head := (r.head + 1) % r.cap
    size := if r.size < r.cap then r.size + 1 else r.size
    cap := r.cap
    length_buf := by rw [List.length_set, r.length_buf]
    head_lt := Nat.mod_lt _ r.cap_pos
    size_le := by
      have := r.size_le
      split <;> omega }

/-- The cell `i` steps from the first, going round. -/
def slot (r : RingBuffer α) (i : ℕ) : α :=
  r.buf.get ⟨i % r.cap, by rw [r.length_buf]; exact Nat.mod_lt _ r.cap_pos⟩

/-- What is kept, oldest first. -/
def all (r : RingBuffer α) : List α :=
  let start := (r.head + r.cap - r.size) % r.cap
  (List.range r.size).map fun i => r.slot (start + i)

/-- The newest of what is kept. -/
def latest (r : RingBuffer α) : Option α :=
  if r.size = 0 then none else some (r.slot (r.head + r.cap - 1))

@[simp] theorem push_cap (r : RingBuffer α) (s : α) : (r.push s).cap = r.cap := rfl

@[simp] theorem length_all (r : RingBuffer α) : r.all.length = r.size := by
  simp [all]

@[simp] theorem all_new (capacity : ℤ) (zero : α) : (new capacity zero).all = [] := by
  simp [all, new]

theorem new_cap (capacity : ℤ) (zero : α) :
    (new capacity zero).cap = if capacity ≤ 0 then 1 else capacity.toNat := by
  unfold new
  rfl

theorem slot_congr {r : RingBuffer α} {i j : ℕ} (h : i % r.cap = j % r.cap) :
    r.slot i = r.slot j := by
  unfold slot
  simp only [h]

theorem slot_mod_add (r : RingBuffer α) (i j : ℕ) : r.slot (i % r.cap + j) = r.slot (i + j) :=
  slot_congr (Nat.mod_add_mod i r.cap j)

/-- One write changes the cell at the head and no other. -/
theorem slot_push (r : RingBuffer α) (s : α) (i : ℕ) :
    (r.push s).slot i = if r.head = i % r.cap then s else r.slot i := by
  unfold slot push
  simp only [List.get_eq_getElem, List.getElem_set]

/-- Fewer than a whole round away is another cell. -/
theorem add_mod_ne {h d c : ℕ} (hh : h < c) (hd : 0 < d) (hdc : d < c) : h ≠ (h + d) % c := by
  by_cases hwrap : h + d < c
  · rw [Nat.mod_eq_of_lt hwrap]
    omega
  · rw [Nat.mod_eq_sub_mod (not_lt.mp hwrap), Nat.mod_eq_of_lt (by omega)]
    omega

/-- Where the head of the buffer is after a write, counted back from it. -/
theorem slot_head_push (r : RingBuffer α) (s : α) {back : ℕ} (hback : back < r.cap) :
    (r.push s).slot ((r.push s).head + r.cap - (back + 1)) =
      (r.push s).slot (r.head + r.cap - back) := by
  apply slot_congr
  have hhead := r.head_lt
  have hnext : (r.push s).head = (r.head + 1) % r.cap := rfl
  rw [hnext, push_cap]
  by_cases hlast : r.head + 1 = r.cap
  · -- the write was to the last cell
    rw [hlast, Nat.mod_self]
    have hround : r.head + r.cap - back = 0 + r.cap - (back + 1) + r.cap := by omega
    rw [hround, Nat.add_mod_right]
  · have hstep : (r.head + 1) % r.cap = r.head + 1 := Nat.mod_eq_of_lt (by omega)
    have hsame : r.head + 1 + r.cap - (back + 1) = r.head + r.cap - back := by omega
    rw [hstep, hsame]

/-- What was written `back` writes before the last one. -/
theorem slot_push_back (r : RingBuffer α) (s : α) {back : ℕ} (hback : back < r.cap) :
    (r.push s).slot ((r.push s).head + r.cap - (back + 1)) =
      if back = 0 then s else r.slot (r.head + r.cap - back) := by
  have hhead := r.head_lt
  rw [slot_head_push r s hback, slot_push]
  by_cases hzero : back = 0
  · rw [if_pos hzero, hzero, Nat.sub_zero, Nat.add_mod_right, Nat.mod_eq_of_lt hhead, if_pos rfl]
  · have hdist : r.head + r.cap - back = r.head + (r.cap - back) := by omega
    rw [if_neg hzero, hdist, if_neg (add_mod_ne hhead (by omega) (by omega))]

theorem getElem_all (r : RingBuffer α) {i : ℕ} (h : i < r.all.length) :
    r.all[i] = r.slot (r.head + r.cap - (r.size - i)) := by
  have hi : i < r.size := by
    rw [length_all] at h
    exact h
  have hsize := r.size_le
  simp only [all, List.getElem_map, List.getElem_range]
  rw [slot_mod_add]
  congr 1
  omega

theorem latest_eq (r : RingBuffer α) : r.latest = r.all.getLast? := by
  have hsize := r.size_le
  rw [List.getLast?_eq_getElem?, length_all]
  unfold latest
  by_cases hempty : r.size = 0
  · rw [if_pos hempty, List.getElem?_eq_none (by rw [length_all]; omega)]
  · have hlast : r.size - 1 < r.all.length := by
      rw [length_all]
      omega
    rw [if_neg hempty, List.getElem?_eq_getElem hlast, getElem_all r hlast]
    congr 3
    omega

/-- **One more value.**  The buffer keeps the last `cap` of what it kept and the new one. -/
theorem all_push (r : RingBuffer α) (s : α) : (r.push s).all = (r.all ++ [s]).rtake r.cap := by
  have hsize := r.size_le
  have hpos := r.cap_pos
  have hnew : (r.push s).size = if r.size < r.cap then r.size + 1 else r.size := rfl
  apply List.ext_getElem
  · rw [List.rtake, List.length_drop, length_all, List.length_append, length_all, hnew,
      List.length_singleton]
    split <;> omega
  · intro i hi hi'
    have hil : i < (r.push s).size := by
      rw [length_all] at hi
      exact hi
    have hback : (r.push s).size - i = (r.push s).size - i - 1 + 1 := by omega
    have hkept : (r.push s).size + (r.size + 1 - r.cap) = r.size + 1 := by
      rw [hnew]
      split <;> omega
    have hcap : (r.push s).size - i - 1 < r.cap := by omega
    rw [getElem_all _ hi, push_cap, hback, slot_push_back r s hcap]
    simp only [List.rtake, List.getElem_drop, List.length_append, length_all,
      List.length_singleton]
    by_cases hlast : (r.push s).size - i - 1 = 0
    · have hat : r.all.length ≤ r.size + 1 - r.cap + i := by
        rw [length_all]
        omega
      rw [if_pos hlast, List.getElem_append_right hat, List.getElem_singleton]
    · have hat : r.size + 1 - r.cap + i < r.all.length := by
        rw [length_all]
        omega
      rw [if_neg hlast, List.getElem_append_left hat, getElem_all r hat]
      congr 1
      omega

/-- The last so many of the last so many and one more. -/
theorem rtake_rtake_concat {n : ℕ} (l : List α) (s : α) :
    (l.rtake n ++ [s]).rtake n = (l ++ [s]).rtake n := by
  unfold List.rtake
  by_cases h : l.length ≤ n
  · rw [Nat.sub_eq_zero_of_le h, List.drop_zero]
  · have hlen : (l.drop (l.length - n) ++ [s]).length - n = 1 := by
      rw [List.length_append, List.length_drop, List.length_singleton]
      omega
    have hwhole : (l ++ [s]).length - n = (l.length - n) + 1 := by
      rw [List.length_append, List.length_singleton]
      omega
    have hsplit : (l ++ [s]).drop (l.length - n) = l.drop (l.length - n) ++ [s] :=
      List.drop_append_of_le_length (Nat.sub_le _ _)
    rw [hlen, hwhole, ← hsplit, List.drop_drop]

/-- A buffer that keeps the last of some values keeps the last of them and one more. -/
theorem all_push_of {r : RingBuffer α} {written : List α} (h : r.all = written.rtake r.cap) (s : α) :
    (r.push s).all = (written ++ [s]).rtake (r.push s).cap := by
  rw [all_push, push_cap, h, rtake_rtake_concat]

end RingBuffer
