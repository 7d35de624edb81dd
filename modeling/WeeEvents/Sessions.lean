import WeeEvents.Memory.Sessions
import WeeEvents.Sqlite.Instances

/-!
# Sessions on every store

The in-memory store, the store on local files under every shipped strategy, and the
store on remote databases give the clients that share them the same guarantees.
-/
namespace WeeEvents
open Foundation Memory Sqlite

section Example

attribute [local instance] canonicalUlidParser canonicalBase32

def created : RawEvent := ⟨⟨"created"⟩, ⟨.json, []⟩⟩

end Example
end WeeEvents
