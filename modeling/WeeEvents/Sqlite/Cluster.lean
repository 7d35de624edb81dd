import WeeEvents.Sqlite.Store
import WeeEvents.Sqlite.Log
import WeeEvents.Foundation.Pool

/-!
# Store instances on shared databases

Any number of store instances, each with its own connection cache and generator,
over databases they share. What is outside the program's control (which paths
and targets exist, what a provisioner answers, which operation fails and how) is
a value each operation is answered from, so every behaviour of the outside is a
choice of such values.
-/
namespace WeeEvents.Sqlite
open Foundation

structure Database where
  events : EventsTable := .empty
  logicalName : Option String := none

/-- `INSERT OR IGNORE` of the logical name. -/
def Database.insertOrIgnoreLogicalName (db : Database) (name : String) : Database :=
  { db with logicalName := some (db.logicalName.getD name) }

/-- `SELECT DISTINCT aggregate_type FROM events ORDER BY aggregate_type` -/
def Database.selectDistinctTypes (db : Database) : List AggregateType :=
  ((db.events.rows.map Row.aggregateType).dedup.insertionSort (· ≤ ·)).map AggregateType.mk

/-- `SELECT DISTINCT .. ORDER BY aggregate_type, aggregate_key` -/
def Database.selectDistinctAggregates (db : Database) : List AggregateId :=
  db.events.selectAggregates.insertionSort fun a b => sortKey a ≤ sortKey b

/-- What the outside decides about one operation. -/
structure Outside (D : Type) where
  failure : Option BackendError := none
  attempt : AttemptFailures := {}
  /-- Whether a failing insert of a logical name took effect all the same. -/
  insertedAnyway : Bool := false
  pathExists : Bool := false
  fileNames : List String := []
  target : DatabaseTarget := .inMemory
  existing : Option DatabaseTarget := none
  namedTargets : List (String × DatabaseTarget) := []
  /-- The database behind the target that is opened. -/
  database : D

def Outside.answer {D α : Type} (outside : Outside D) (value : α) : Except BackendError α :=
  match outside.failure with
  | some e => .error e
  | none => .ok value

variable {P D : Type} [DecidableEq D]

def serveCatalog (outside : Outside D) (databases : D → Database) :
    (op : CatalogOp D) → op.Res × (D → Database)
  | .createParentDir _ => (outside.answer (), databases)
  | .pathExists _ => (outside.pathExists, databases)
  | .readDir => (outside.answer outside.fileNames, databases)
  | .ensureTarget => (outside.answer outside.target, databases)
  | .existingTarget => (outside.answer outside.existing, databases)
  | .ensureTargetForName _ => (outside.answer outside.target, databases)
  | .targetForExistingName _ => (outside.answer outside.existing, databases)
  | .namedTargets => (outside.answer outside.namedTargets, databases)
  | .openEventStoreConnection _ => (outside.answer outside.database, databases)
  | .insertOrIgnoreLogicalName conn name =>
      (outside.answer (),
        if outside.failure.isSome && !outside.insertedAnyway then databases
        else Function.update databases conn ((databases conn).insertOrIgnoreLogicalName name))
  | .selectLogicalName conn => (outside.answer (databases conn).logicalName, databases)
  | .selectDistinctTypes conn => (outside.answer (databases conn).selectDistinctTypes, databases)
  | .selectDistinctAggregates conn =>
      (outside.answer (databases conn).selectDistinctAggregates, databases)

structure Cluster (P D : Type) where
  databases : D → Database
  connections : Nat → List (P × D)
  generators : Nat → Generator

def Cluster.setConnections (w : Cluster P D) (self : Nat) (connections : List (P × D)) :
    Cluster P D :=
  { w with connections := Function.update w.connections self connections }

/-- The entry of a partition in a connection cache. -/
def findConnection [DecidableEq P] (connections : List (P × D)) (partition : P) : Option D :=
  (connections.find? (·.1 = partition)).map Prod.snd

/-- One operation of store instance `self`. Nothing answers the unreachable. -/
def serve [DecidableEq P] [UlidParser] (outside : Outside D) (self : Nat) (w : Cluster P D) :
    (op : StoreOp P D) → Option (op.Res × Cluster P D)
  | .catalog op =>
      let (r, databases) := serveCatalog outside w.databases op
      some (r, { w with databases })
  | .cachedConnection partition =>
      some (findConnection (w.connections self) partition, w)
  | .cacheConnection partition conn =>
      some ((), w.setConnections self
        ((partition, conn) :: (w.connections self).filter (·.1 ≠ partition)))
  | .removeConnection partition =>
      some ((), w.setConnections self ((w.connections self).filter (·.1 ≠ partition)))
  | .cachedPartitions => some ((w.connections self).map Prod.fst, w)
  | .tryPublishOnce conn id options events =>
      let (r, generator, table) := tryPublishOnce outside.attempt (w.generators self)
        (w.databases conn).events id options events
      some (r, { w with
        generators := Function.update w.generators self generator
        databases := Function.update w.databases conn
          { w.databases conn with events := table } })
  | .loadFromConnection conn id =>
      match outside.failure with
      | some e => some (.error (.backend e), w)
      | none => some (loadFromConnection (w.databases conn).events id, w)
  | .enumerateAllFromConnection conn =>
      some (outside.answer (w.databases conn).events.selectAggregates, w)
  | .enumerateByTypeFromConnection conn type =>
      some (outside.answer (((w.databases conn).events.selectKeys type).map (AggregateId.mk type)), w)
  | .sleep _ => some ((), w)
  | .unreachable _ => none

/-- What one operation of an instance may do, however the outside answers it. -/
def InstanceStep [DecidableEq P] [UlidParser] (self : Nat) (w : Cluster P D) (op : StoreOp P D)
    (r : op.Res) (w' : Cluster P D) : Prop :=
  ∃ outside, serve outside self w op = some (r, w')

section Effects

theorem serveCatalog_events (outside : Outside D) (databases : D → Database) (op : CatalogOp D)
    (d : D) : ((serveCatalog outside databases op).2 d).events = (databases d).events := by
  cases op <;> try rfl
  case insertOrIgnoreLogicalName conn name =>
    unfold serveCatalog
    split
    · rfl
    · rcases eq_or_ne d conn with rfl | ne
      · simp [Database.insertOrIgnoreLogicalName]
      · simp [ne]

variable [DecidableEq P] [UlidParser] {outside : Outside D} {self : Nat} {w w' : Cluster P D}

/-- What a publish attempt does to the cluster: its own generator and its database. -/
theorem serve_tryPublishOnce {conn : D} {id : AggregateId} {options : PublishOptions}
    {events : List RawEvent} {r : Except PublishAttemptError ChangeSet}
    (h : serve outside self w (.tryPublishOnce conn id options events) = some (r, w')) :
    ∃ generator table, tryPublishOnce outside.attempt (w.generators self)
        (w.databases conn).events id options events = (r, generator, table) ∧
      w' = { w with
        generators := Function.update w.generators self generator
        databases := Function.update w.databases conn
          { w.databases conn with events := table } } := by
  simp only [serve, Option.some.injEq, Prod.mk.injEq] at h
  obtain ⟨rfl, rfl⟩ := h
  exact ⟨_, _, rfl, rfl⟩

/-- Only publish attempts touch the events and the generators. -/
theorem serve_other {op : StoreOp P D} {r : op.Res}
    (other : ∀ conn id options events, op ≠ .tryPublishOnce conn id options events)
    (h : serve outside self w op = some (r, w')) :
    (∀ d, (w'.databases d).events = (w.databases d).events) ∧ w'.generators = w.generators := by
  cases op with
  | catalog op =>
      simp only [serve, Option.some.injEq, Prod.mk.injEq] at h
      obtain ⟨_, rfl⟩ := h
      exact ⟨serveCatalog_events outside w.databases op, rfl⟩
  | tryPublishOnce conn id options events => exact absurd rfl (other conn id options events)
  | loadFromConnection conn id =>
      simp only [serve] at h
      split at h <;> cases h <;> exact ⟨fun _ => rfl, rfl⟩
  | unreachable => cases h
  | _ =>
      cases h
      exact ⟨fun _ => rfl, rfl⟩

end Effects

/-! ### The cluster as a system -/

/-- The calls of the event store. -/
inductive StoreCall where
  | load (id : AggregateId)
  | publish (id : AggregateId) (options : PublishOptions) (events : List RawEvent)
  | enumerateAggregates
  | enumerateAggregatesByType (type : AggregateType)

inductive StoreResult where
  | loaded (r : Except Error Aggregate)
  | published (r : Except Error ChangeSet)
  | enumerated (r : Except SqliteError (List AggregateId))

/-- The conflict in a result, if it is one. -/
def StoreResult.conflict? : StoreResult → Option (Revision × Revision)
  | .published (.error (.revisionConflict expected actual)) => some (expected, actual)
  | _ => none

theorem StoreResult.conflict?_eq_some {r : StoreResult} {expected actual : Revision}
    (h : r.conflict? = some (expected, actual)) :
    r = .published (.error (.revisionConflict expected actual)) := by
  unfold StoreResult.conflict? at h
  split at h
  · cases h
    rfl
  · cases h

def StoreCall.program [LinearOrder P] [UlidParser] (strategy : PartitionStrategy P)
    (catalog : PartitionCatalog P D) : StoreCall → Program (StoreOp P D) StoreOp.Res StoreResult
  | .load id => (Sqlite.load strategy catalog id).bind fun r => .ret (.loaded r)
  | .publish id options events =>
      (Sqlite.publish strategy catalog id options events).bind fun r => .ret (.published r)
  | .enumerateAggregates => (Sqlite.enumerateAggregates strategy catalog).bind fun r => .ret (.enumerated r)
  | .enumerateAggregatesByType type =>
      (Sqlite.enumerateAggregatesByType strategy catalog type).bind fun r => .ret (.enumerated r)

/-- A system whose calls each run a program on one store instance. -/
abbrev clusterOf [DecidableEq P] [UlidParser] {Call Result : Type} (self : Call → Nat)
    (program : Call → Program (StoreOp P D) StoreOp.Res Result)
    (mayInvoke : List (Event (StoreOp P D) StoreOp.Res Call Result) → Call → Prop :=
      fun _ _ => True) : System where
  Op := StoreOp P D
  Res := StoreOp.Res
  Shared := Cluster P D
  Call := Call
  Result := Result
  program := program
  step _ call := InstanceStep (self call)
  mayInvoke := mayInvoke

/-- Store instances, each with its own strategy and catalog, and calls on them. -/
abbrev cluster [LinearOrder P] [UlidParser] (strategies : Nat → PartitionStrategy P)
    (catalogs : Nat → PartitionCatalog P D) : System :=
  clusterOf (Prod.fst : Nat × StoreCall → Nat)
    fun call => call.2.program (strategies call.1) (catalogs call.1)

/-- Fresh databases, empty caches, any generators. -/
def Cluster.initial (generators : Nat → Generator) : Cluster P D :=
  ⟨fun _ => {}, fun _ => [], generators⟩

/-- Every operation of every call answered from the same outside. -/
def answeredBy [DecidableEq P] [UlidParser] {Call : Type} (self : Call → Nat) (outside : Outside D)
    (_ : Nat) (call : Call) (op : StoreOp P D) (w : Cluster P D) : Option (op.Res × Cluster P D) :=
  serve outside (self call) w op

section InOrder

variable [LinearOrder P] [UlidParser] {strategies : Nat → PartitionStrategy P}
  {catalogs : Nat → PartitionCatalog P D} {w₀ w' : Cluster P D} {calls : List (Nat × StoreCall)}
  {results : List StoreResult}

/-- Calls on a cluster, each running alone, one after the other. -/
theorem reachable_inOrder (outside : Outside D)
    (run : Pool.runInOrder (S := cluster strategies catalogs) (answeredBy Prod.fst outside) 0 calls
      w₀ = some (results, w')) :
    ∃ p : Pool (cluster strategies catalogs), Pool.Reachable w₀ p ∧ p.shared = w' ∧
      ∀ i call a, calls[i]? = some call → results[i]? = some a → .returned i call a ∈ p.trace := by
  have answers : ∀ c call w op r w', answeredBy Prod.fst outside c call op w = some (r, w') →
      Pool.PermittedStep (S := cluster strategies catalogs) (fun _ _ => True) c call w op r w' :=
    fun c call w op r w' served => ⟨⟨outside, served⟩, trivial⟩
  have begin : Pool.ReachableBy (S := cluster strategies catalogs) (fun _ _ => True) w₀
      (Pool.initial w₀) := .start
  obtain ⟨q, reach, shared, _, _, each⟩ := begin.runInOrder (fun _ _ _ => ⟨trivial, fun _ => trivial⟩)
    answers (fun _ _ _ _ => trivial) (fun c' _ event member => by cases member) run
  refine ⟨q, reach, shared, fun i call a isCall isResult => ?_⟩
  simpa using each i call a isCall isResult

end InOrder
end WeeEvents.Sqlite
