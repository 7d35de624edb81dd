import WeeEvents.Sqlite.Services

/-!
# Services on remote databases

The same services over databases that a provisioner finds or creates, one for all
aggregates or one for each partition name. What the outside is relied on for: a
connection leads to the database of its aggregate, and one that is said not to exist
holds nothing of the aggregates that would be looked for there.
-/
namespace WeeEvents.Sqlite
open Foundation

variable {P D : Type} [DecidableEq D]

/-! ### What a load looks for -/

section Implementation

variable [DecidableEq P] [UlidParser] (strategy : PartitionStrategy P) (catalog : PartitionCatalog P D)

variable {strategy catalog} {looks : AggregateId → CatalogOp D → Prop}

end Implementation

/-! ### Services over the shipped catalogs -/

section Services

variable [DecidableEq P] [UlidParser] {S E C R EL EH : Type} [Inhabited S] [DomainEvent E]

end Services

section Example

attribute [local instance] canonicalUlidParser

end Example
end WeeEvents.Sqlite
