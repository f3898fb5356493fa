import Ddsnap.Changelist

/-!
# Requests for squashed snapshots

A squashed snapshot stays listed with a bit number that belongs to no snapshot.  The handlers of snapshot reads, snapshot
writes and `IDENTIFY` look for it; `STREAM_CHANGELIST` does not, and shifts by it.
-/

namespace Ddsnap

variable {D : Type}

section
variable {d : Daemon D} {sb : Sb D} {tag slot : Nat}

end

/-! ### A squashed snapshot -/

end Ddsnap
