import WeeEvents.Foundation.Budget
import WeeEvents.Sqlite.StreamOrder

/-!
# How long the retry loops sleep

The retry loops of a publish are nested three deep, and each sleeps between its
attempts. Whatever the databases answer, the loops of a publish sleep for no longer
than all of them together may, and no other call has such a loop. SQLite's own wait
for a lock inside one statement, up to the busy timeout of a local connection, comes
on top of that and is not counted here.
-/
namespace WeeEvents.Sqlite
open Foundation

variable {P D : Type}

/-- How long the store sleeps in an operation, before jitter; not what SQLite waits for a lock. -/
def sleepMs : StoreOp P D → Nat
  | .sleep backoffMs => backoffMs
  | _ => 0

/-- What the store sleeps in the program in all is no more than this. -/
abbrev SleepsAtMost {α : Type} (p : Program (StoreOp P D) StoreOp.Res α) (n : Nat) : Prop :=
  CostsAtMost sleepMs p n

/-! ### What never sleeps -/

section Awake

variable {α : Type}

theorem awake_storeCall {op : StoreOp P D} (awake : sleepMs op = 0) : SleepsAtMost (storeCall op) 0 := by
  refine CostsAtMost.mono (m := sleepMs op + 0) (.call fun r => .ret _ _) ?_
  rw [awake]

theorem awake_fromCatalog (p : CatalogProgram D α) : SleepsAtMost (P := P) (fromCatalog p) 0 := by
  have asks : SleepsAtMost (P := P) (p.lift StoreOp.catalog fun _ r => r) 0 :=
    CostsAtMost.free_lift (fun op => show sleepMs (StoreOp.catalog op : StoreOp P D) = 0 from rfl) p
  exact asks.bind (n := 0) fun _ => .ret _ _

variable (catalog : PartitionCatalog P D)

theorem awake_openAndCache (partition : P) (target : DatabaseTarget) :
    SleepsAtMost (openAndCache catalog partition target) 0 := by
  refine (awake_fromCatalog _).andThen (n := 0) fun conn => ?_
  refine (awake_fromCatalog _).andThen (n := 0) fun _ => ?_
  exact CostsAtMost.bind (n := 0) (awake_storeCall rfl) fun _ => .ret _ _

theorem awake_ensurePartitionOpen (partition : P) : SleepsAtMost (ensurePartitionOpen catalog partition) 0 := by
  refine CostsAtMost.bind (n := 0) (awake_storeCall rfl) fun cached => ?_
  cases cached with
  | some conn => exact .ret _ _
  | none => exact (awake_fromCatalog _).andThen (n := 0) fun target => awake_openAndCache catalog partition target

theorem awake_openPartitionIfExists (partition : P) :
    SleepsAtMost (openPartitionIfExists catalog partition) 0 := by
  refine CostsAtMost.bind (n := 0) (awake_storeCall rfl) fun cached => ?_
  cases cached with
  | some conn => exact .ret _ _
  | none =>
      refine (awake_fromCatalog _).andThen (n := 0) fun found => ?_
      cases found with
      | none => exact .ret _ _
      | some target => exact (awake_openAndCache catalog partition target).andThen (n := 0) fun _ => .ret _ _

theorem awake_load (strategy : PartitionStrategy P) (id : AggregateId) :
    SleepsAtMost (load strategy catalog id) 0 := by
  have routes : SleepsAtMost (D := D) (partitionFor strategy id) 0 := .ret _ _
  have loads : SleepsAtMost (loadAggregate strategy catalog id) 0 := by
    refine routes.andThen (n := 0) fun partition => ?_
    refine (awake_openPartitionIfExists catalog partition).andThen (n := 0) fun conn => ?_
    cases conn with
    | none => exact .ret _ _
    | some conn => exact awake_storeCall rfl
  exact loads.bind (n := 0) fun _ => .ret _ _

theorem awake_enumeratePartition (partition : P) (read : PartitionRead) :
    SleepsAtMost (enumeratePartition catalog partition read) 0 := by
  cases read with
  | direct id => exact .ret _ _
  | skip => exact .ret _ _
  | scanAll =>
      refine (awake_openPartitionIfExists catalog partition).andThen (n := 0) fun conn => ?_
      cases conn with
      | none => exact .ret _ _
      | some conn => exact CostsAtMost.bind (n := 0) (awake_storeCall rfl) fun _ => .ret _ _
  | scanType type =>
      refine (awake_openPartitionIfExists catalog partition).andThen (n := 0) fun conn => ?_
      cases conn with
      | none => exact .ret _ _
      | some conn => exact CostsAtMost.bind (n := 0) (awake_storeCall rfl) fun _ => .ret _ _

theorem awake_enumeratePartitions (plan : P → PartitionRead) (partitions : List P) :
    SleepsAtMost (enumeratePartitions catalog plan partitions) 0 := by
  induction partitions with
  | nil => exact .ret _ _
  | cons partition rest ih =>
      refine (awake_enumeratePartition catalog partition _).andThen (n := 0) fun ids => ?_
      exact ih.andThen (n := 0) fun _ => .ret _ _

theorem awake_enumerating [LinearOrder P] (plan : P → PartitionRead) :
    SleepsAtMost ((allKnownPartitions catalog).andThen fun partitions =>
      (enumeratePartitions catalog plan partitions).andThen fun ids =>
        .ret (.ok (sortedUniqueIds ids))) 0 := by
  have known : SleepsAtMost (allKnownPartitions catalog) 0 := by
    refine (awake_fromCatalog _).andThen (n := 0) fun _ => ?_
    exact CostsAtMost.bind (n := 0) (awake_storeCall rfl) fun _ => .ret _ _
  refine known.andThen (n := 0) fun partitions => ?_
  exact (awake_enumeratePartitions catalog plan partitions).andThen (n := 0) fun _ => .ret _ _

end Awake

/-! ### Publishing -/

/-- The sleeps of the busy loop, with the iterations that remain. -/
def busyWaits : Nat → Nat
  | 0 => 0
  | remaining + 1 => busyBackoffMs (maxBusyRetries - (remaining + 1)) + busyWaits remaining

/-- The sleeps of the conflict loop and of the busy loops in it. -/
def conflictWaits (maxAttempts : Nat) : Nat → Nat
  | 0 => 0
  | remaining + 1 => busyWaits maxBusyRetries +
      ((if remaining ≠ 0 then retryBackoffMs (maxAttempts - (remaining + 1)) else 0) +
        conflictWaits maxAttempts remaining)

/-- The sleeps of one pass. -/
def passWaits (options : PublishOptions) : Nat :=
  let maxAttempts := if options.expectedRevision.isNone then maxAutoRetries else 1
  conflictWaits maxAttempts maxAttempts

/-- The sleeps of the loop that waits for a partition, and of its passes. -/
def readyWaits (pass : Nat) : Nat → Nat
  | 0 => 0
  | remaining + 1 => pass + ((if remaining ≠ 0 then lazyCreatePartitionReadyDelayMs else 0) + readyWaits pass remaining)

section Publish

variable {id : AggregateId} {options : PublishOptions} {events : List RawEvent}

theorem waits_sleep {α : Type} {backoffMs n : Nat} {rest : Unit → Program (StoreOp P D) StoreOp.Res α}
    (h : ∀ r, SleepsAtMost (rest r) n) :
    SleepsAtMost ((storeCall (.sleep backoffMs)).bind rest) (backoffMs + n) :=
  CostsAtMost.call h

theorem waits_attempt {α : Type} {conn : D} {n : Nat}
    {rest : Except PublishAttemptError ChangeSet → Program (StoreOp P D) StoreOp.Res α}
    (h : ∀ r, SleepsAtMost (rest r) n) :
    SleepsAtMost ((storeCall (.tryPublishOnce conn id options events)).bind rest) n :=
  (CostsAtMost.call h).mono (Nat.zero_add n).le

theorem waits_retryWhileBusy (conn : D) (remaining : Nat) (result : Except PublishAttemptError ChangeSet) :
    SleepsAtMost (P := P) (retryWhileBusy id options events conn remaining result) (busyWaits remaining) := by
  induction remaining generalizing result with
  | zero => exact .ret _ _
  | succ remaining ih =>
      match result with
      | .ok changeset => exact .ret _ _
      | .error (.conflict c) => exact .ret _ _
      | .error (.store error) =>
          rw [retryWhileBusy]
          split
          · exact waits_sleep fun _ => waits_attempt ih
          · exact .ret _ _

theorem waits_retryOnConflict [UlidParser] (conn : D) (canAutoRetry : Bool) (maxAttempts remaining : Nat)
    (last : Option RetryDiagnostics) :
    SleepsAtMost (P := P) (retryOnConflict id options events conn canAutoRetry maxAttempts remaining last)
      (conflictWaits maxAttempts remaining) := by
  induction remaining generalizing last with
  | zero =>
      cases last with
      | some diagnostics => exact .ret _ _
      | none => exact ⟨Nat.le_refl 0, fun r => r.elim⟩
  | succ remaining ih =>
      refine waits_attempt fun first => (waits_retryWhileBusy conn _ first).bind fun result => ?_
      match result with
      | .ok changeset => exact .ret _ _
      | .error (.store error) => exact .ret _ _
      | .error (.conflict c) =>
          dsimp only
          split
          · split
            · exact waits_sleep fun _ => ih _
            · exact (ih _).mono (Nat.zero_add _).ge
          · exact .ret _ _

theorem waits_publishWithConnection [UlidParser] (conn : D) :
    SleepsAtMost (P := P) (publishWithConnection id options events conn) (passWaits options) := by
  rw [publishWithConnection]
  split
  · have reads : SleepsAtMost (P := P) ((storeCall (.loadFromConnection conn id)).andThen fun aggregate =>
        .ret (.ok (⟨id, aggregate.revision, []⟩ : ChangeSet))) 0 :=
      CostsAtMost.andThen (n := 0) (awake_storeCall rfl) fun _ => .ret _ _
    exact reads.mono (Nat.zero_le _)
  · exact waits_retryOnConflict conn _ _ _ none

theorem waits_retryUntilReady [UlidParser] (catalog : PartitionCatalog P D) (partition : P) (remaining : Nat) :
    SleepsAtMost (retryUntilReady id options events catalog partition remaining)
      (readyWaits (passWaits options) remaining) := by
  induction remaining with
  | zero => exact ⟨Nat.le_refl 0, fun r => r.elim⟩
  | succ remaining ih =>
      have pass : SleepsAtMost ((ensurePartitionOpen catalog partition).andThen fun conn =>
          publishWithConnection id options events conn) (passWaits options) :=
        ((awake_ensurePartitionOpen catalog partition).andThen fun conn =>
          waits_publishWithConnection conn).mono (Nat.zero_add _).le
      refine pass.bind fun r => ?_
      cases r with
      | ok changeset => exact .ret _ _
      | error e =>
          dsimp only
          split
          · next again =>
              rw [Bool.and_eq_true, decide_eq_true_iff] at again
              rw [if_pos again.2]
              have waits : SleepsAtMost ((storeCall (.sleep lazyCreatePartitionReadyDelayMs)).bind fun _ =>
                  retryUntilReady id options events catalog partition remaining)
                  (lazyCreatePartitionReadyDelayMs + readyWaits (passWaits options) remaining) :=
                waits_sleep fun _ => ih
              exact (CostsAtMost.call fun _ => waits).mono (Nat.zero_add _).le
          · exact .ret _ _

/-- 30 passes with a second between them, each of five rounds of busy retries with a backoff between
them, or of one round where a revision is expected. -/
theorem readyWaits_passWaits (options : PublishOptions) :
    readyWaits (passWaits options) lazyCreatePartitionReadyAttempts =
      if options.expectedRevision.isNone then 152150 else 53450 := by
  rw [passWaits]
  split <;> decide

theorem waits_publish [UlidParser] (strategy : PartitionStrategy P) (catalog : PartitionCatalog P D)
    (id : AggregateId) (options : PublishOptions) (events : List RawEvent) :
    SleepsAtMost (publish strategy catalog id options events)
      (if options.expectedRevision.isNone then 152150 else 53450) := by
  have routes : SleepsAtMost (D := D) (partitionFor strategy id) 0 := .ret _ _
  have publishes : SleepsAtMost (publishToAggregate id options events strategy catalog)
      (readyWaits (passWaits options) lazyCreatePartitionReadyAttempts) :=
    (routes.andThen fun partition => waits_retryUntilReady catalog partition _).mono (Nat.zero_add _).le
  rw [readyWaits_passWaits] at publishes
  exact publishes.bind (n := 0) fun _ => .ret _ _

end Publish

/-! ### Among others -/

/-- How long the retry loops of a call may sleep, before jitter. -/
def StoreCall.sleepMs : StoreCall → Nat
  | .publish _ options _ => if options.expectedRevision.isNone then 152150 else 53450
  | _ => 0

section Cluster

variable [LinearOrder P] [DecidableEq D] [UlidParser]

omit [DecidableEq D] in
theorem waits_program (strategy : PartitionStrategy P) (catalog : PartitionCatalog P D) (call : StoreCall) :
    SleepsAtMost (call.program strategy catalog) call.sleepMs := by
  cases call with
  | load id => exact (awake_load catalog strategy id).bind (n := 0) fun _ => .ret _ _
  | publish id options events => exact (waits_publish strategy catalog id options events).bind (n := 0) fun _ => .ret _ _
  | enumerateAggregates => exact (awake_enumerating catalog _).bind (n := 0) fun _ => .ret _ _
  | enumerateAggregatesByType type => exact (awake_enumerating catalog _).bind (n := 0) fun _ => .ret _ _

/-- However many instances work on whatever databases, and whatever these answer, the retry loops of
no call sleep for longer than those of its kind may. -/
theorem sleeps_bounded {strategies : Nat → PartitionStrategy P} {catalogs : Nat → PartitionCatalog P D}
    {w₀ : Cluster P D} {p : Pool (cluster strategies catalogs)} (reach : Pool.Reachable w₀ p) {c i : Nat}
    {call : StoreCall} (invoked : .invoked c (i, call) ∈ p.trace) : spent sleepMs p.trace c ≤ call.sleepMs := by
  have costs : ∀ call : Nat × StoreCall,
      SleepsAtMost (call.2.program (strategies call.1) (catalogs call.1)) call.2.sleepMs :=
    fun call => waits_program _ _ call.2
  exact (reach.spent_le costs).2 c (i, call) invoked

end Cluster

section Example

attribute [local instance] canonicalUlidParser

/-- The database is locked whenever a transaction begins. -/
def lockedDatabase : Outside Unit :=
  { database := (), attempt := { begin := some (.sqliteFailure 5 "database is locked") } }

def publishLocked : Nat × StoreCall :=
  (0, .publish sharedId { expectedRevision := some .zero } [⟨⟨"incremented"⟩, ⟨.json, []⟩⟩])

abbrev lockedStores : System :=
  cluster (fun _ => (globalStrategy (D := Unit)).toPartitionStrategy) fun _ => singleTargetCatalog (D := Unit)

/-- A publish that finds the database locked until it gives up. -/
def gaveUp : Option (Pool lockedStores) :=
  Pool.replay (S := lockedStores) (answeredBy Prod.fst lockedDatabase)
    (.begin 0 publishLocked :: List.replicate 22 (.advance 0)) (Pool.initial (Cluster.initial skewedGenerators))

/-- The event with which it begins. -/
def beginsLocked : lockedStores.Happening → Bool
  | .invoked c (i, .publish id options raws) => c = 0 ∧ i = 0 ∧ id = sharedId ∧
      options = { expectedRevision := some .zero } ∧ raws = [⟨⟨"incremented"⟩, ⟨.json, []⟩⟩]
  | _ => false

theorem invoked_of_beginsLocked {event : lockedStores.Happening} (begins : beginsLocked event = true) :
    event = .invoked 0 publishLocked := by
  cases event with
  | invoked c call =>
      obtain ⟨i, call⟩ := call
      cases call with
      | publish id options raws =>
          rw [beginsLocked, decide_eq_true_iff] at begins
          obtain ⟨rfl, rfl, rfl, rfl, rfl⟩ := begins
          rfl
      | load id => cases begins
      | enumerateAggregates => cases begins
      | enumerateAggregatesByType type => cases begins
  | performed c call op r => cases begins
  | returned c call result => cases begins

/-- It slept eight times, within its bound. -/
theorem gave_up_in_time : ∃ p : Pool lockedStores,
    Pool.Reachable (Cluster.initial skewedGenerators) p ∧ spent sleepMs p.trace 0 = 815 ∧
      815 ≤ publishLocked.2.sleepMs := by
  have slept : gaveUp.map (fun p => (spent sleepMs p.trace 0, p.trace.any beginsLocked)) = some (815, true) := by
    decide +kernel
  obtain ⟨p, run, same⟩ := Option.map_eq_some_iff.mp slept
  obtain ⟨total, began⟩ := Prod.mk.inj same
  obtain ⟨event, member, begins⟩ := List.any_eq_true.mp began
  rw [invoked_of_beginsLocked begins] at member
  have reach : Pool.ReachableBy (S := lockedStores) (fun _ _ => True) (Cluster.initial skewedGenerators) p :=
    Pool.ReachableBy.replay (fun _ _ => trivial) (fun _ _ _ _ _ _ served => ⟨⟨_, served⟩, trivial⟩)
      (fun _ _ _ => ⟨trivial, fun _ => trivial⟩) .start run
  have bounded : spent sleepMs p.trace 0 ≤ publishLocked.2.sleepMs := sleeps_bounded reach member
  exact ⟨p, reach, total, total ▸ bounded⟩

end Example
end WeeEvents.Sqlite
