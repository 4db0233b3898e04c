/-
The orders of the VM, webhook and schedule lists (`pkg/types/vm_sort.go`, `webhook_sort.go`,
`schedule.go`).

A record is here what its list is sorted by, with texts as they are stored: a field may be
empty, in another case or with blanks around it.  Instants are in nanoseconds from the zero
time, which is `0`.
-/
import VMSmith.Events.EventSort
import VMSmith.Lib.IPAddr

namespace VMSmith

open Go (trimSpace toLower)

namespace VMSpec

end VMSpec

end VMSmith
