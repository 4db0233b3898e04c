/-
The checks that several request handlers share.
-/
import VMSmith.Types.VM
import Mathlib.Data.List.Dedup
import Mathlib.Data.List.Sort

namespace VMSmith.Api

open Go (trimSpace toLower)

/-- `tagRe`. -/
def tagRe (tag : String) : Bool :=
  let plain := fun c : Char => c.isLower || c.isDigit
  tag.toList.head?.any plain &&
    tag.toList.all fun c => plain c || c == '.' || c == '_' || c == ':' || c == '-'

/-- One tag of `NormalizeTags`. -/
def normalizeTag (tag : String) : Except Err String :=
  let trimmed := trimSpace (toLower tag)
  if trimmed = "" then .error (.api "invalid_spec" "tags cannot contain empty values")
  else if 32 < trimmed.utf8ByteSize then .error (.api "invalid_spec" "tags must be 1-32 characters")
  else if ¬ tagRe trimmed then .error (.api "invalid_spec"
    "tags must contain only lowercase letters, numbers, dots, colons, underscores, or hyphens")
  else .ok trimmed

/-- `NormalizeTags`: each tag once, in order. -/
def normalizeTags (tags : List String) : Except Err (List String) :=
  (tags.mapM normalizeTag).map fun ts => ts.dedup.insertionSort (· ≤ ·)

def rejectIf (c : Prop) [Decidable c] (e : Err) : Except Err Unit := if c then .error e else .ok ()

/-- A field of a patch, checked where it is given. -/
def patchField {α β : Type} (field : Option α) (check : α → Except Err β) (old : β) : Except Err β :=
  match field with
  | none => .ok old
  | some a => check a

theorem bind_ok {ε α β : Type} {x : Except ε α} {f : α → Except ε β} {b : β}
    (h : x >>= f = .ok b) : ∃ a, x = .ok a ∧ f a = .ok b := by
  cases x with
  | error e => simp [bind, Except.bind] at h
  | ok a => exact ⟨a, rfl, h⟩

theorem patchField_ok {α β : Type} {field : Option α} {check : α → Except Err β} {old new : β}
    {f : α → Option β} (hcheck : ∀ a b, check a = .ok b → f a = some b)
    (h : patchField field check old = .ok new) : new = (field.bind f).getD old := by
  cases field with
  | none => exact (Except.ok.inj h).symm
  | some a =>
      rw [Option.bind_some, hcheck a new h]
      rfl

/-- `ValidateOptionalVMResourceValue`: zero is left to the defaults. -/
def validateOptionalVMResourceValue (value min max : Nat) (field : String) : Except Err Unit :=
  if value = 0 then .ok ()
  else if value < min ∨ max < value then .error (.api "invalid_spec"
    (field ++ " must be between " ++ toString min ++ " and " ++ toString max))
  else .ok ()

end VMSmith.Api
