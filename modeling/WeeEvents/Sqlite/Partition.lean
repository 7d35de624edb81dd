import WeeEvents.Sqlite.Publish
import WeeEvents.Foundation.Program

/-!
# Partitions, strategies and catalogs

The extension points of the store: a strategy routes aggregates to logical
partitions, a catalog maps partitions to database targets. What they ask of the
outside world is an operation, so that the world can answer, or fail, as it
likes. `P` is the type of partitions and `D` identifies a database, which is all
that a connection is here.
-/
namespace WeeEvents.Sqlite
open Foundation

inductive PartitionRead where
  | scanAll
  | scanType (type : AggregateType)
  | direct (id : AggregateId)
  | skip
  deriving DecidableEq, Repr

inductive PartitionName where
  | default
  | named (name : String)
  deriving DecidableEq, Repr

/-- Paths of the local catalog: the configured root, or a file directly in it. -/
inductive LocalPath where
  | root
  | inRoot (fileName : String)
  deriving DecidableEq, Repr

/-- A concrete database target for a partition. -/
inductive DatabaseTarget where
  | inMemory
  | ofPath (path : LocalPath)
  | sqldDefault (url authToken : String)
  | sqldNamespace (url authToken ns : String)
  | turso (url authToken : String)
  deriving DecidableEq, Repr

inductive LocalPartitionLayout where
  /-- A single database file at the configured root path. -/
  | singleDatabase
  /-- One database file per logical partition name. -/
  | namedDatabases
  deriving DecidableEq, Repr

/-- What a catalog asks of the file system, a provisioner or a database. -/
inductive CatalogOp (D : Type) where
  | createParentDir (path : LocalPath)
  | pathExists (path : LocalPath)
  | readDir
  | ensureTarget
  | existingTarget
  | ensureTargetForName (name : PartitionName)
  | targetForExistingName (name : PartitionName)
  | namedTargets
  | openEventStoreConnection (target : DatabaseTarget)
  | insertOrIgnoreLogicalName (conn : D) (name : String)
  | selectLogicalName (conn : D)
  | selectDistinctTypes (conn : D)
  | selectDistinctAggregates (conn : D)

abbrev CatalogOp.Res {D : Type} : CatalogOp D → Type
  | createParentDir _ => Except BackendError Unit
  | pathExists _ => Bool
  | readDir => Except BackendError (List String)
  | ensureTarget => Except BackendError DatabaseTarget
  | existingTarget => Except BackendError (Option DatabaseTarget)
  | ensureTargetForName _ => Except BackendError DatabaseTarget
  | targetForExistingName _ => Except BackendError (Option DatabaseTarget)
  | namedTargets => Except BackendError (List (String × DatabaseTarget))
  | openEventStoreConnection _ => Except BackendError D
  | insertOrIgnoreLogicalName _ _ => Except BackendError Unit
  | selectLogicalName _ => Except BackendError (Option String)
  | selectDistinctTypes _ => Except BackendError (List AggregateType)
  | selectDistinctAggregates _ => Except BackendError (List AggregateId)

/-- A catalog function: it can only fail with an error of the crate's own. -/
abbrev CatalogProgram (D α : Type) : Type := Program (CatalogOp D) CatalogOp.Res (Except BackendError α)

def catalogCall {D : Type} (op : CatalogOp D) : Program (CatalogOp D) CatalogOp.Res op.Res :=
  .perform op

structure PartitionStrategy (P : Type) where
  bootstrapPartitions : List P := []
  partitionForAggregate : AggregateId → Except BackendError P
  readPlan : P → PartitionRead
  readPlanByType : P → AggregateType → PartitionRead

/-- Adds a stable backend-facing name for a logical partition. -/
structure PartitionNamingStrategy (P D : Type) extends PartitionStrategy P where
  partitionName : P → PartitionName
  partitionFromName : String → Except BackendError P
  partitionFromTargetName : String → DatabaseTarget → CatalogProgram D (Option P) :=
    fun name _ => .ret ((partitionFromName name).map some)

structure LocalPartitionStrategy (P D : Type) extends PartitionNamingStrategy P D where
  localPartitionLayout : LocalPartitionLayout

/-- Maps logical partitions to concrete database targets. -/
structure PartitionCatalog (P D : Type) where
  ensureTargetForPartition : P → CatalogProgram D DatabaseTarget
  targetForExistingPartition : P → CatalogProgram D (Option DatabaseTarget)
  partitions : CatalogProgram D (List P)
  prepareConnectionForPartition : P → D → CatalogProgram D Unit := fun _ _ => .ret (.ok ())

variable {P D : Type}

/-! ### The name recorded in a database -/

def nameMismatchMessage (recorded name : String) : String :=
  "logical partition name mismatch: target is recorded as '" ++ recorded ++
    "' but was opened for '" ++ name ++ "'"

def ensurePartitionName (conn : D) (logicalName : String) : CatalogProgram D Unit :=
  (catalogCall (.insertOrIgnoreLogicalName conn logicalName)).andThen fun _ =>
  (catalogCall (.selectLogicalName conn)).andThen fun
    | none => .ret (.error (.internal
        "partition metadata insert succeeded without recording logical_name"))
    | some recordedName =>
        if recordedName ≠ logicalName then
          .ret (.error (.configuration (nameMismatchMessage recordedName logicalName)))
        else .ret (.ok ())

/-- `prepare_connection_for_partition` of both catalogs with named partitions. -/
def prepareNamedConnection (strategy : PartitionNamingStrategy P D) (partition : P) (conn : D) :
    CatalogProgram D Unit :=
  match strategy.partitionName partition with
  | .named name => ensurePartitionName conn name
  | .default => .ret (.ok ())

end WeeEvents.Sqlite
