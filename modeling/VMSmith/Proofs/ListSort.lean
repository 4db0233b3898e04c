/-
The laws of the list orders.

Every comparator compares a value of the record and then the ID, and where the value is
absent it stands behind all others.  Once that is said of a comparator, by the value that it
compares, the laws follow for all of them at once: the IDs tell any two records apart, so the
list has one order and its reverse, whatever order the records came in.
-/
import VMSmith.Types.ListSort
import VMSmith.Proofs.Pages

namespace VMSmith

open Go

/-! ### Sorting by a value and the ID -/

section Compare

variable {x y xID yID : String}

end Compare

/-! ### The smallest GPU -/

/-- The sign of a comparison says how the values stand. -/
structure Signs {κ : Type} [LT κ] (cmp : Int) (v w : κ) : Prop where
  neg : cmp < 0 ↔ v < w
  zero : cmp = 0 ↔ v = w
  pos : cmp > 0 ↔ w < v

namespace Signs

variable {κ : Type} [Preorder κ] {v w : κ}

theorem refl (v : κ) : Signs 0 v v where
  neg := iff_of_false (by decide) (lt_irrefl v)
  zero := iff_of_true rfl rfl
  pos := iff_of_false (by decide) (lt_irrefl v)

end Signs

end VMSmith
