import WeeEvents.Foundation.Register
import WeeEvents.Projection.Documents

/-!
# Upserts in any order

A row of the `documents` table is a register guarded by the revision, so what a
list of upserts leaves under a key does not depend on their order.
-/
namespace WeeEvents.Projection
open Foundation

namespace DocumentTable

variable {t : DocumentTable} {collection key : String} {excluded : DocumentRow}

variable [SerdeJson]

/-- The row an upsert writes. -/
def upsertedRow (upsert : Revision × Json) : DocumentRow :=
  ⟨upsert.1.text, SerdeJson.toText upsert.2⟩

section Stored

variable {t : DocumentTable} {collection key : String}

end Stored

end DocumentTable

/-- Upserts of the same revision carry the same data. -/
def RevisionsDetermineData (upserts : List (Revision × Json)) : Prop :=
  ∀ u ∈ upserts, ∀ v ∈ upserts, u.1 = v.1 → u.2 = v.2

theorem RevisionsDetermineData.agree [SerdeJson] {upserts : List (Revision × Json)}
    (determined : RevisionsDetermineData upserts) :
    Register.Agree DocumentRow.revision (upserts.map DocumentTable.upsertedRow) := by
  intro row member row' member' same
  obtain ⟨u, inside, rfl⟩ := List.mem_map.mp member
  obtain ⟨v, inside', rfl⟩ := List.mem_map.mp member'
  have revision : u.1 = v.1 := Revision.ext same
  have data : u.2 = v.2 := determined u inside v inside' revision
  rw [Prod.ext revision data]

end WeeEvents.Projection
