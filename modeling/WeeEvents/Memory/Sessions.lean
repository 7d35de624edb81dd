import WeeEvents.Memory.Linearizability
import WeeEvents.SharedStore

/-!
# Sessions on the in-memory store

The sequential object that explains the threads answers as any shared store may, so
the threads have the guarantees of its sessions. It reports a conflict only where the
stream is not at the expected revision.
-/
namespace WeeEvents.Memory
open Foundation

theorem Minted.ordered {m : MemoryModel} (h : Minted m) : m.log.Ordered :=
  ⟨h.stream_increasing, h.nonzero⟩

end WeeEvents.Memory
