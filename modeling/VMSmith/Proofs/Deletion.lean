/-
What a deletion leaves behind, step by step.

The domain, the reservation and the directory are removed one after the other, whether or
not the one before was, and the record last of all.  Only the record decides what the call
returns.  So a deletion is whole when every removal goes through and the record's does too,
or when it is turned away before the first of them, or when the record stays and nothing
that came before was removed.
-/
import VMSmith.Proofs.GPUs
import VMSmith.System.Trees

namespace VMSmith

open Prog (bind_eq wp_bind)

/-! ### What is there, and what is gone -/

namespace Domain

variable (F : Failing) (dom : Domain)

end Domain

section Conditions

variable (F : Failing) (w : World) (vm : VM)

end Conditions

/-! ### The domain -/

namespace VirtState

variable {s : VirtState} {d : Domain}

end VirtState

namespace World

variable {F : Failing} {w : World} {dom : Domain}

end World

end VMSmith
