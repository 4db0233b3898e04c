/-
Pages of a list.

A list request names a page and its size in the query.  Every list handler cuts its page
with `paginateSlice`; the event list has two copies of it, `paginate`, one in the store and
one behind the sort.  The offset is a product of machine integers in all of them.
-/
import VMSmith.Events.EventSort

namespace VMSmith

namespace Api

open Go

/-- A slice: its elements fit into the memory of the machine, whose addresses have 48 bits. -/
structure Slice (α : Type) where
  elems : List α
  length_lt : elems.length < 2 ^ 48

/-- The parts of a request that `parsePagination` reads. -/
structure PageRequest where
  path : String
  page : String := ""
  perPage : String := ""
  limit : String := ""
  deriving DecidableEq, Repr

structure PaginationParams where
  page : Int
  perPage : Int
  deriving DecidableEq, Repr

/-- The number `raw` writes if it is positive, `unset` otherwise. -/
def positiveOr (unset : Int) (raw : String) : Int :=
  match atoi raw with
  | some parsed => if 0 < parsed then parsed else unset
  | none => unset

def parsePagination (r : PageRequest) : PaginationParams :=
  let page := if trimSpace r.page ≠ "" then positiveOr 1 (trimSpace r.page) else 1
  let perPage :=
    if trimSpace r.perPage ≠ "" then positiveOr 0 (trimSpace r.perPage)
    else if trimSpace r.limit ≠ "" then positiveOr 0 (trimSpace r.limit)
    else if hasSuffix r.path "/logs" then 200
    else 0
  { page := page, perPage := if maxPerPage < perPage then maxPerPage else perPage }

/-- `paginateSlice`; `none` where the bounds are out of range. -/
def paginateSlice {α : Type} (items : Slice α) (page perPage : Int) : Option (List α) :=
  if items.elems.length = 0 ∨ perPage ≤ 0 then some items.elems
  else
    let page := if page ≤ 0 then 1 else page
    let start := ((page - 1) * perPage).bmod (2 ^ 64)
    if items.elems.length ≤ start then some []
    else
      let stop := (start + perPage).bmod (2 ^ 64)
      let stop : Int := if items.elems.length < stop then items.elems.length else stop
      if 0 ≤ start ∧ start ≤ stop then
        some ((items.elems.drop start.toNat).take (stop.toNat - start.toNat))
      else none

/-- The offset of the page is a machine integer, or its remainder still lies behind the list. -/
def OffsetFits (page perPage : Int) (length : Nat) : Prop :=
  (page - 1) * perPage < 2 ^ 63 ∨
    (length ≤ (page - 1) * perPage % 2 ^ 64 ∧ (page - 1) * perPage % 2 ^ 64 < 2 ^ 63)

instance (page perPage : Int) (length : Nat) : Decidable (OffsetFits page perPage length) :=
  inferInstanceAs (Decidable (_ ∨ _))

/-! ### What a request can ask for -/

theorem positiveOr_bounds (unset : Int) (h : 0 ≤ unset ∧ unset < 2 ^ 63) (raw : String) :
    (unset ≤ positiveOr unset raw ∨ 0 < positiveOr unset raw) ∧ positiveOr unset raw < 2 ^ 63 := by
  unfold positiveOr
  cases hraw : atoi raw with
  | none => exact ⟨.inl le_rfl, h.2⟩
  | some parsed =>
      dsimp only
      by_cases hpos : 0 < parsed
      · have hlt : parsed < 2 ^ 63 := by
          unfold atoi at hraw
          have hbounds := (Option.filter_eq_some_iff.mp hraw).2
          simp only [decide_eq_true_eq] at hbounds
          exact hbounds.2
        rw [if_pos hpos]
        exact ⟨.inr hpos, hlt⟩
      · rw [if_neg hpos]
        exact ⟨.inl le_rfl, h.2⟩

/-- The page is a positive machine integer. -/
theorem page_bounds (r : PageRequest) :
    1 ≤ (parsePagination r).page ∧ (parsePagination r).page < 2 ^ 63 := by
  unfold parsePagination
  dsimp only
  by_cases hset : trimSpace r.page ≠ ""
  · have hbounds := positiveOr_bounds 1 (by decide) (trimSpace r.page)
    rw [if_pos hset]
    omega
  · rw [if_neg hset]
    decide

theorem perPage_le (r : PageRequest) : (parsePagination r).perPage ≤ maxPerPage := by
  unfold parsePagination
  dsimp only
  split_ifs with hover <;> omega

/-- The event list reads its page as every list does. -/
theorem parsePagination_eventQuery (q : EventQuery) :
    VMSmith.parsePagination q =
      ((parsePagination ⟨"/api/v1/events", q.page, q.perPage, q.limit⟩).page,
        (parsePagination ⟨"/api/v1/events", q.page, q.perPage, q.limit⟩).perPage) := by
  have hempty : ∀ unset, positiveOr unset "" = unset := fun unset => by
    unfold positiveOr
    rw [show atoi "" = none by decide]
  have hpath : hasSuffix "/api/v1/events" "/logs" = false := by decide
  have hset : ∀ unset s, (if trimSpace s ≠ "" then positiveOr unset (trimSpace s) else unset) =
      positiveOr unset (trimSpace s) := by
    intro unset s
    by_cases h : trimSpace s = ""
    · rw [h, hempty]
      simp
    · rw [if_pos h]
  unfold VMSmith.parsePagination parsePagination
  dsimp only
  rw [hpath]
  simp only [Bool.false_eq_true, if_false, hset]
  by_cases hper : trimSpace q.perPage = ""
  · simp only [hper, ne_eq, not_true, if_false]
    unfold positiveOr
    cases atoi (trimSpace q.page) <;> cases atoi (trimSpace q.limit) <;> rfl
  · simp only [hper, ne_eq, not_false_iff, if_true]
    unfold positiveOr
    cases atoi (trimSpace q.page) <;> cases atoi (trimSpace q.perPage) <;> rfl

end Api

end VMSmith
