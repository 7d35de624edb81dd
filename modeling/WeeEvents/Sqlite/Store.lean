import WeeEvents.Sqlite.Partition

/-!
# The SQLite event store

The methods of `EventStore` as programs: the connection cache, the two ways to
open a partition, loading, enumeration, and the three nested retry loops of
publishing. One operation is one critical section of the source; the mutex that
holds several of them together is left out, which only adds interleavings.
-/
namespace WeeEvents.Sqlite
open Foundation

inductive StoreOp (P D : Type) where
  | catalog (op : CatalogOp D)
  | cachedConnection (partition : P)
  | cacheConnection (partition : P) (conn : D)
  | removeConnection (partition : P)
  | cachedPartitions
  | tryPublishOnce (conn : D) (id : AggregateId) (options : PublishOptions) (events : List RawEvent)
  | loadFromConnection (conn : D) (id : AggregateId)
  | enumerateAllFromConnection (conn : D)
  | enumerateByTypeFromConnection (conn : D) (type : AggregateType)
  | sleep (backoffMs : Nat)
  | unreachable (message : String)

/-- The response types; nothing answers an operation the source calls unreachable. -/
abbrev StoreOp.Res {P D : Type} : StoreOp P D → Type
  | catalog op => op.Res
  | cachedConnection _ => Option D
  | cacheConnection _ _ => Unit
  | removeConnection _ => Unit
  | cachedPartitions => List P
  | tryPublishOnce _ _ _ _ => Except PublishAttemptError ChangeSet
  | loadFromConnection _ _ => Except SqliteError Aggregate
  | enumerateAllFromConnection _ => Except BackendError (List AggregateId)
  | enumerateByTypeFromConnection _ _ => Except BackendError (List AggregateId)
  | sleep _ => Unit
  | unreachable _ => Empty

abbrev StoreProgram (P D α : Type) : Type := Program (StoreOp P D) StoreOp.Res (Except SqliteError α)

variable {P D α : Type}

def storeCall (op : StoreOp P D) : Program (StoreOp P D) StoreOp.Res op.Res := .perform op

/-- A catalog function called by the store, with the error conversion of `?`. -/
def fromCatalog (p : CatalogProgram D α) : StoreProgram P D α :=
  (p.lift StoreOp.catalog fun _ r => r).bind fun result => .ret (result.mapError .backend)

/-! ### Opening partitions -/

section Open

variable (catalog : PartitionCatalog P D)

/-- Open a target, prepare the connection, cache it. -/
def openAndCache (partition : P) (target : DatabaseTarget) : StoreProgram P D D :=
  (fromCatalog (catalogCall (.openEventStoreConnection target))).andThen fun conn =>
  (fromCatalog (catalog.prepareConnectionForPartition partition conn)).andThen fun _ =>
  (storeCall (.cacheConnection partition conn)).bind fun _ => .ret (.ok conn)

def ensurePartitionOpen (partition : P) : StoreProgram P D D :=
  (storeCall (.cachedConnection partition)).bind fun
    | some conn => .ret (.ok conn)
    | none =>
        (fromCatalog (catalog.ensureTargetForPartition partition)).andThen fun target =>
        openAndCache catalog partition target

def openPartitionIfExists (partition : P) : StoreProgram P D (Option D) :=
  (storeCall (.cachedConnection partition)).bind fun
    | some conn => .ret (.ok (some conn))
    | none =>
        (fromCatalog (catalog.targetForExistingPartition partition)).andThen fun
          | none => .ret (.ok none)
          | some target =>
              (openAndCache catalog partition target).andThen fun conn => .ret (.ok (some conn))

/-- The loop of `bootstrap`. -/
def bootstrapEach : List P → StoreProgram P D Unit
  | [] => .ret (.ok ())
  | partition :: rest => (ensurePartitionOpen catalog partition).andThen fun _ => bootstrapEach rest

/-- Opens the partitions a store starts with. -/
def bootstrap (strategy : PartitionStrategy P) : StoreProgram P D Unit :=
  bootstrapEach catalog strategy.bootstrapPartitions

end Open

/-! ### Loading and enumerating -/

section Read

variable (strategy : PartitionStrategy P) (catalog : PartitionCatalog P D)

def partitionFor (id : AggregateId) : StoreProgram P D P :=
  .ret ((strategy.partitionForAggregate id).mapError .backend)

def loadAggregate (id : AggregateId) : StoreProgram P D Aggregate :=
  (partitionFor strategy id).andThen fun partition =>
  (openPartitionIfExists catalog partition).andThen fun
    | none => .ret (.ok (Aggregate.empty id))
    | some conn => storeCall (.loadFromConnection conn id)

def enumeratePartition (partition : P) : PartitionRead → StoreProgram P D (List AggregateId)
  | .scanAll =>
      (openPartitionIfExists catalog partition).andThen fun
        | none => .ret (.ok [])
        | some conn => (storeCall (.enumerateAllFromConnection conn)).bind fun ids =>
            .ret (ids.mapError .backend)
  | .scanType type =>
      (openPartitionIfExists catalog partition).andThen fun
        | none => .ret (.ok [])
        | some conn => (storeCall (.enumerateByTypeFromConnection conn type)).bind fun ids =>
            .ret (ids.mapError .backend)
  | .direct id => .ret (.ok [id])
  | .skip => .ret (.ok [])

/-- A `BTreeSet` collected from a list: its elements in order, each once. -/
def sortedSet [LinearOrder P] (partitions : List P) : List P := partitions.toFinset.sort (· ≤ ·)

theorem mem_sortedSet [LinearOrder P] {partitions : List P} {partition : P} :
    partition ∈ sortedSet partitions ↔ partition ∈ partitions := by
  rw [sortedSet, Finset.mem_sort, List.mem_toFinset]

def allKnownPartitions [LinearOrder P] : StoreProgram P D (List P) :=
  (fromCatalog catalog.partitions).andThen fun partitions =>
  (storeCall .cachedPartitions).bind fun cached => .ret (.ok (sortedSet (partitions ++ cached)))

/-- `try_join_all` over the partitions, one after the other. -/
def enumeratePartitions (plan : P → PartitionRead) : List P → StoreProgram P D (List AggregateId)
  | [] => .ret (.ok [])
  | partition :: rest =>
      (enumeratePartition catalog partition (plan partition)).andThen fun ids =>
      (enumeratePartitions plan rest).andThen fun more => .ret (.ok (ids ++ more))

/-- `sort_by` and `dedup`. -/
def sortedUniqueIds (ids : List AggregateId) : List AggregateId :=
  (ids.insertionSort fun a b => sortKey a ≤ sortKey b).destutter (· ≠ ·)

def enumerateAggregates [LinearOrder P] : StoreProgram P D (List AggregateId) :=
  (allKnownPartitions catalog).andThen fun partitions =>
  (enumeratePartitions catalog strategy.readPlan partitions).andThen fun ids =>
  .ret (.ok (sortedUniqueIds ids))

def enumerateAggregatesByType [LinearOrder P] (type : AggregateType) :
    StoreProgram P D (List AggregateId) :=
  (allKnownPartitions catalog).andThen fun partitions =>
  (enumeratePartitions catalog (strategy.readPlanByType · type) partitions).andThen fun ids =>
  .ret (.ok (sortedUniqueIds ids))

end Read

/-! ### Which errors are retried -/

def sqliteBusy : Int := 5
def sqliteLocked : Int := 6

def isSqliteBusy : SqliteError → Bool
  | .backend (.libsql (.sqliteFailure code _)) => code == sqliteBusy || code == sqliteLocked
  | .backend (.libsql (.remoteSqliteFailure _ code _)) => code == sqliteBusy || code == sqliteLocked
  | _ => false

/-- `str::contains` -/
def containsText (s pattern : String) : Bool := decide (pattern.toList <:+: s.toList)

def isLazyCreatePartitionNotReadyMessage (message : String) : Bool :=
  let message := message.map Char.toLower
  if !containsText message "namespace" then false
  else containsText message "doesn't exist" || containsText message "does not exist" ||
    containsText message "not found" || containsText message "404"

def isLazyCreatePartitionNotReady : SqliteError → Bool
  | .backend (.libsql (.connectionFailed s)) => isLazyCreatePartitionNotReadyMessage s
  | .backend (.libsql (.hrana s)) => isLazyCreatePartitionNotReadyMessage s
  | .backend (.libsql (.writeDelegation s)) => isLazyCreatePartitionNotReadyMessage s
  | _ => false

def possibleClockSkewMs [UlidParser] (attempted actual : Revision) : Option Nat :=
  match UlidParser.fromString attempted.text, UlidParser.fromString actual.text with
  | .ok attemptedUlid, .ok actualUlid =>
      let delta := actualUlid.timestampMs - attemptedUlid.timestampMs
      if 0 < delta then some delta else none
  | _, _ => none

/-! ### Publishing -/

def maxAutoRetries : Nat := 5
def maxBusyRetries : Nat := 8
def lazyCreatePartitionReadyAttempts : Nat := 30

/-- The backoff of `retry_delay`, before the jitter of at most the same length. -/
def retryBackoffMs (attempt : Nat) : Nat := min (2 * 2 ^ min attempt 5) 64

/-- The backoff of `busy_retry_delay`, before the jitter of at most the same length. -/
def busyBackoffMs (attempt : Nat) : Nat := min (5 * 2 ^ min attempt 6) 250

def lazyCreatePartitionReadyDelayMs : Nat := 1000

abbrev AttemptProgram (P D : Type) : Type :=
  Program (StoreOp P D) StoreOp.Res (Except PublishAttemptError ChangeSet)

section Publish

variable (id : AggregateId) (options : PublishOptions) (events : List RawEvent)

/-- `for busy_attempt in 0..MAX_BUSY_RETRIES`, with the iterations that remain. -/
def retryWhileBusy (conn : D) : Nat → Except PublishAttemptError ChangeSet → AttemptProgram P D
  | 0, publishResult => .ret publishResult
  | remaining + 1, publishResult =>
      match publishResult with
      | .error (.store error) =>
          if isSqliteBusy error then
            (storeCall (.sleep (busyBackoffMs (maxBusyRetries - (remaining + 1))))).bind fun _ =>
            (storeCall (.tryPublishOnce conn id options events)).bind fun publishResult =>
            retryWhileBusy conn remaining publishResult
          else .ret publishResult
      | _ => .ret publishResult

/-- `for attempt in 0..max_attempts`, with the iterations that remain. -/
def retryOnConflict [UlidParser] (conn : D) (canAutoRetry : Bool) (maxAttempts : Nat) :
    Nat → Option RetryDiagnostics → StoreProgram P D ChangeSet
  | 0, some diagnostics => .ret (.error (.weeEvents
      (.custom (.retryExhausted maxAttempts diagnostics))))
  | 0, none =>
      (storeCall (.unreachable "retry loop always records the last conflict")).bind Empty.elim
  | remaining + 1, _lastConflict =>
      (storeCall (.tryPublishOnce conn id options events)).bind fun first =>
      (retryWhileBusy id options events conn maxBusyRetries first).bind fun
        | .ok changeset => .ret (.ok changeset)
        | .error (.conflict conflict) =>
            if canAutoRetry then
              let lastConflict : RetryDiagnostics := {
                lastAttemptedRevision := conflict.attemptedRevision
                observedMaxRevision := conflict.actual
                possibleClockSkewMs :=
                  possibleClockSkewMs conflict.attemptedRevision conflict.actual }
              if remaining ≠ 0 then
                (storeCall (.sleep (retryBackoffMs (maxAttempts - (remaining + 1))))).bind fun _ =>
                retryOnConflict conn canAutoRetry maxAttempts remaining (some lastConflict)
              else retryOnConflict conn canAutoRetry maxAttempts remaining (some lastConflict)
            else .ret (.error (.weeEvents (.revisionConflict conflict.expected conflict.actual)))
        | .error (.store error) => .ret (.error error)

def publishWithConnection [UlidParser] (conn : D) : StoreProgram P D ChangeSet :=
  if events.isEmpty then
    (storeCall (.loadFromConnection conn id)).andThen fun aggregate =>
    .ret (.ok ⟨id, aggregate.revision, []⟩)
  else
    let canAutoRetry := options.expectedRevision.isNone
    let maxAttempts := if canAutoRetry then maxAutoRetries else 1
    retryOnConflict id options events conn canAutoRetry maxAttempts maxAttempts none

/-- The loop of `publish_to_aggregate`, with the iterations that remain. -/
def retryUntilReady [UlidParser] (catalog : PartitionCatalog P D) (partition : P) :
    Nat → StoreProgram P D ChangeSet
  | 0 => (storeCall (.unreachable
      "lazy create retry loop always returns on the last attempt")).bind Empty.elim
  | remaining + 1 =>
      ((ensurePartitionOpen catalog partition).andThen fun conn =>
        publishWithConnection id options events conn).bind fun
        | .ok changeset => .ret (.ok changeset)
        | .error error =>
            if isLazyCreatePartitionNotReady error && remaining ≠ 0 then
              (storeCall (.removeConnection partition)).bind fun _ =>
              (storeCall (.sleep lazyCreatePartitionReadyDelayMs)).bind fun _ =>
              retryUntilReady catalog partition remaining
            else .ret (.error error)

def publishToAggregate [UlidParser] (strategy : PartitionStrategy P) (catalog : PartitionCatalog P D) :
    StoreProgram P D ChangeSet :=
  (partitionFor strategy id).andThen fun partition =>
  retryUntilReady id options events catalog partition lazyCreatePartitionReadyAttempts

end Publish

/-! ### The `EventStore` trait -/

section Api

variable (strategy : PartitionStrategy P) (catalog : PartitionCatalog P D)

def load (id : AggregateId) : Program (StoreOp P D) StoreOp.Res (Except Error Aggregate) :=
  (loadAggregate strategy catalog id).bind fun r => .ret (r.mapError SqliteError.into)

def publish [UlidParser] (id : AggregateId) (options : PublishOptions) (events : List RawEvent) :
    Program (StoreOp P D) StoreOp.Res (Except Error ChangeSet) :=
  (publishToAggregate id options events strategy catalog).bind fun r =>
    .ret (r.mapError SqliteError.into)

end Api
end WeeEvents.Sqlite
