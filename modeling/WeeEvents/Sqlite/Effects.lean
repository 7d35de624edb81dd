import WeeEvents.Sqlite.Attempts
import WeeEvents.Sqlite.Settlement

/-!
# When a call takes effect

The operation of a call at which its result is settled: a load that reads, or that
finds no database; an attempt that commits, or that conflicts with an expectation.
No operation comes after it, and a call that returns without one has failed.
-/
namespace WeeEvents.Sqlite
open Foundation

variable {P D : Type}

/-! ### Effects -/

/-- The conflict that an error reports. -/
def conflictOf : SqliteError → Option EventStoreResult
  | .weeEvents (.revisionConflict expected actual) =>
      some (.published (.error (.revisionConflict expected actual)))
  | _ => none

/-- The effect of a publish with this result. -/
def publishOutcome : Except SqliteError ChangeSet → Option EventStoreResult
  | .ok changeset => some (.published (.ok changeset))
  | .error e => conflictOf e

/-- The effect of an attempt. A publish without an expectation tries again. -/
def attemptOutcome (options : PublishOptions) : Except PublishAttemptError ChangeSet → Option EventStoreResult
  | .ok changeset => some (.published (.ok changeset))
  | .error (.conflict c) => options.expectedRevision.map fun _ =>
      .published (.error (.revisionConflict c.expected c.actual))
  | .error (.store e) => conflictOf e

/-- The effect of a load with this result. -/
def loadOutcome : Except SqliteError Aggregate → Option EventStoreResult
  | .ok aggregate => some (.loaded (.ok aggregate))
  | .error _ => none

/-- The catalog finds no database. -/
def reportsMissing : (op : CatalogOp D) → op.Res → Bool
  | .pathExists _, pathExists => !pathExists
  | .existingTarget, .ok none => true
  | .targetForExistingName _, .ok none => true
  | _, _ => false

/-- The result that an operation settles for its call. -/
def effectOf (call : EventStoreCall) : (op : StoreOp P D) → op.Res → Option EventStoreResult
  | .tryPublishOnce _ _ options _, r => attemptOutcome options r
  | .loadFromConnection _ id, r =>
      match call with
      | .load _ => loadOutcome r
      | .publish _ _ _ => publishOutcome (r.map fun aggregate => ⟨id, aggregate.revision, []⟩)
  | .catalog op, r =>
      match call with
      | .load id => if reportsMissing op r then loadOutcome (.ok (Aggregate.empty id)) else none
      | .publish _ _ _ => none
  | _, _ => none

/-- What a call may do before it takes effect. A load asks of the catalog what `looks` allows. -/
def effectMay (looks : AggregateId → CatalogOp D → Prop) (call : EventStoreCall) : StoreOp P D → Prop
  | .catalog op =>
      match call with
      | .load id => looks id op
      | .publish _ _ _ => True
  | .tryPublishOnce _ id options raws => call = .publish id options raws ∧ raws ≠ []
  | .loadFromConnection _ id => call = .load id ∨ ∃ options, call = .publish id options []
  | .enumerateAllFromConnection _ => False
  | .enumerateByTypeFromConnection _ _ => False
  | .unreachable _ => False
  | _ => True

/-- The knowledge of a call is the effect it has had: it does nothing after that. -/
def effectDiscipline (looks : AggregateId → CatalogOp D → Prop) (call : EventStoreCall) :
    Discipline (StoreOp P D) StoreOp.Res (Option EventStoreResult) where
  may k op := k = none ∧ effectMay looks call op
  learn _ op r := effectOf call op r

theorem conflictOf_busy {e : SqliteError} (busy : isSqliteBusy e = true) : conflictOf e = none := by
  cases e with
  | backend b => rfl
  | weeEvents e => cases busy

theorem conflictOf_notReady {e : SqliteError} (notReady : isLazyCreatePartitionNotReady e = true) :
    conflictOf e = none := by
  cases e with
  | backend b => rfl
  | weeEvents e => cases notReady

/-! ### Publishing -/

section Publish

variable {looks : AggregateId → CatalogOp D → Prop} {id : AggregateId} {options : PublishOptions}
  {events : List RawEvent}

theorem effect_attempt (conn : D) (nonempty : events ≠ []) :
    (effectDiscipline (P := P) looks (.publish id options events)).Obeys (fun k r => k = attemptOutcome options r)
      (storeCall (.tryPublishOnce conn id options events)) none :=
  ⟨⟨rfl, rfl, nonempty⟩, fun _ => rfl⟩

theorem effect_retryWhileBusy (conn : D) (nonempty : events ≠ []) (remaining : Nat)
    (result : Except PublishAttemptError ChangeSet) :
    (effectDiscipline (P := P) looks (.publish id options events)).Obeys (fun k r => k = attemptOutcome options r)
      (retryWhileBusy id options events conn remaining result) (attemptOutcome options result) := by
  induction remaining generalizing result with
  | zero => rfl
  | succ remaining ih =>
      match result with
      | .ok changeset => rfl
      | .error (.conflict c) => rfl
      | .error (.store error) =>
          rw [retryWhileBusy]
          split
          · next busy =>
              rw [attemptOutcome, conflictOf_busy busy]
              refine ⟨⟨rfl, trivial⟩, fun _ => ?_⟩
              refine (effect_attempt conn nonempty).bind fun k again known => ?_
              subst known
              exact ih again
          · rfl

theorem effect_retryOnConflict [UlidParser] (conn : D) (nonempty : events ≠ []) (maxAttempts remaining : Nat)
    (last : Option RetryDiagnostics) (some_left : remaining ≠ 0 ∨ last.isSome) :
    (effectDiscipline (P := P) looks (.publish id options events)).Obeys (fun k r => k = publishOutcome r)
      (retryOnConflict id options events conn options.expectedRevision.isNone maxAttempts remaining last)
      none := by
  induction remaining generalizing last with
  | zero =>
      cases last with
      | none => simp at some_left
      | some diagnostics => rfl
  | succ remaining ih =>
      refine (effect_attempt conn nonempty).bind fun k first known => ?_
      subst known
      refine (effect_retryWhileBusy conn nonempty maxBusyRetries first).bind fun k result known => ?_
      subst known
      match result with
      | .ok changeset => rfl
      | .error (.store error) => rfl
      | .error (.conflict c) =>
          cases expecting : options.expectedRevision with
          | some e =>
              simp only [attemptOutcome, expecting, Option.map_some, Option.isNone_some,
                Bool.false_eq_true, if_false]
              rfl
          | none =>
              rw [expecting] at ih
              simp only [attemptOutcome, expecting, Option.map_none, Option.isNone_none, if_true]
              split
              · exact ⟨⟨rfl, trivial⟩, fun _ => ih _ (.inr rfl)⟩
              · exact ih _ (.inr rfl)

theorem effect_publishWithConnection [UlidParser] (conn : D) :
    (effectDiscipline (P := P) looks (.publish id options events)).Obeys (fun k r => k = publishOutcome r)
      (publishWithConnection id options events conn) none := by
  rw [publishWithConnection]
  split
  · next empty =>
      rw [List.isEmpty_iff] at empty
      refine ⟨⟨rfl, .inr ⟨options, by rw [empty]⟩⟩, fun r => ?_⟩
      cases r with
      | ok aggregate => rfl
      | error e => rfl
  · next nonempty =>
      rw [List.isEmpty_iff] at nonempty
      refine effect_retryOnConflict conn nonempty _ _ none (.inl ?_)
      split <;> decide

/-- Opening a partition to publish has no effect. -/
theorem effect_opens : Opens (P := P) (effectDiscipline looks (.publish id options events)) (· = none) :=
  ⟨fun _ _ open_ => ⟨⟨open_, trivial⟩, fun _ => rfl⟩, fun _ _ open_ => ⟨⟨open_, trivial⟩, fun _ => rfl⟩,
    fun _ _ _ open_ => ⟨⟨open_, trivial⟩, fun _ => rfl⟩⟩

theorem effect_openAndPublish [UlidParser] (catalog : PartitionCatalog P D) (partition : P) :
    (effectDiscipline looks (.publish id options events)).Obeys (fun k r => k = publishOutcome r)
      ((ensurePartitionOpen catalog partition).andThen fun conn =>
        publishWithConnection id options events conn) none := by
  refine (effect_opens.ensurePartitionOpen catalog partition rfl).andThen (fun k conn known => ?_)
    fun k e known => ?_
  · obtain ⟨rfl, -⟩ := known
    exact effect_publishWithConnection conn
  · obtain ⟨rfl, plain⟩ := known
    obtain ⟨b, rfl⟩ := plain e rfl
    rfl

theorem effect_retryUntilReady [UlidParser] (catalog : PartitionCatalog P D) (partition : P)
    (remaining : Nat) :
    (effectDiscipline looks (.publish id options events)).Obeys (fun k r => k = publishOutcome r)
      (retryUntilReady id options events catalog partition (remaining + 1)) none := by
  induction remaining with
  | zero =>
      refine (effect_openAndPublish catalog partition).bind fun k r known => ?_
      subst known
      cases r with
      | ok changeset => rfl
      | error e =>
          simp only [ne_eq, not_true_eq_false, decide_false, Bool.and_false, Bool.false_eq_true,
            if_false]
          rfl
  | succ remaining ih =>
      refine (effect_openAndPublish catalog partition).bind fun k r known => ?_
      subst known
      cases r with
      | ok changeset => rfl
      | error e =>
          dsimp only
          split
          · next again =>
              rw [Bool.and_eq_true] at again
              rw [publishOutcome, conflictOf_notReady again.1]
              exact ⟨⟨rfl, trivial⟩, fun _ => ⟨⟨rfl, trivial⟩, fun _ => ih⟩⟩
          · rfl

theorem effect_publishToAggregate [UlidParser] (strategy : PartitionStrategy P)
    (catalog : PartitionCatalog P D) :
    (effectDiscipline looks (.publish id options events)).Obeys (fun k r => k = publishOutcome r)
      (publishToAggregate id options events strategy catalog) none := by
  rw [publishToAggregate, partitionFor]
  cases strategy.partitionForAggregate id with
  | ok partition => exact effect_retryUntilReady catalog partition 29
  | error b => rfl

end Publish
/-! ### Loading -/

section Load

variable {looks : AggregateId → CatalogOp D → Prop} {id : AggregateId}

/-- What a load knows of a partition that it looked up. -/
def lookedUp {α : Type} (id : AggregateId) : Except SqliteError (Option α) → Option EventStoreResult
  | .ok none => loadOutcome (.ok (Aggregate.empty id))
  | _ => none

/-- A catalog that looks up the partition of an aggregate as it is allowed to, ends when it finds
no database, and looks for none while it prepares a connection. -/
structure LooksUp (looks : AggregateId → CatalogOp D → Prop) (strategy : PartitionStrategy P)
    (catalog : PartitionCatalog P D) : Prop where
  missing : ∀ id partition, strategy.partitionForAggregate id = .ok partition →
    (effectDiscipline (P := P) looks (.load id)).Obeys (fun k r => k = lookedUp id (r.mapError .backend))
      ((catalog.targetForExistingPartition partition).lift StoreOp.catalog fun _ r => r) none
  opens : ∀ id target, looks id (.openEventStoreConnection target)
  prepares : ∀ id partition conn,
    (effectDiscipline (P := P) looks (.load id)).Obeys (fun k _ => k = none)
      ((catalog.prepareConnectionForPartition partition conn).lift StoreOp.catalog fun _ r => r) none

theorem effect_prepareNamed (inserts : ∀ conn name, looks id (.insertOrIgnoreLogicalName conn name))
    (selects : ∀ conn, looks id (.selectLogicalName conn)) (naming : PartitionNamingStrategy P D)
    (partition : P) (conn : D) :
    (effectDiscipline (P := P) looks (.load id)).Obeys (fun k _ => k = none)
      ((prepareNamedConnection naming partition conn).lift StoreOp.catalog fun _ r => r) none := by
  unfold prepareNamedConnection
  cases naming.partitionName partition with
  | default => rfl
  | named name =>
      refine ⟨⟨rfl, inserts conn name⟩, fun inserted => ?_⟩
      cases inserted with
      | error e => rfl
      | ok _ =>
          refine ⟨⟨rfl, selects conn⟩, fun selected => ?_⟩
          match selected with
          | .error e => rfl
          | .ok none => rfl
          | .ok (some recorded) =>
              simp only [Program.bind_ret]
              split
              · rfl
              · rfl

theorem looksUp_local [Base32Nopad] {naming : LocalPartitionStrategy P D}
    (paths : ∀ id partition path, naming.partitionForAggregate id = .ok partition →
      pathForPartition naming partition = .ok path → looks id (.pathExists path))
    (opens : ∀ id target, looks id (.openEventStoreConnection target))
    (inserts : ∀ id conn name, looks id (.insertOrIgnoreLogicalName conn name))
    (selects : ∀ id conn, looks id (.selectLogicalName conn)) :
    LooksUp looks naming.toPartitionStrategy (localPartitionCatalog naming) where
  missing id partition routed := by
    rw [localPartitionCatalog]
    dsimp only
    cases located : pathForPartition naming partition with
    | error e => rfl
    | ok path =>
        refine ⟨⟨rfl, paths id partition path routed located⟩, fun pathExists => ?_⟩
        cases pathExists with
        | true => rfl
        | false => rfl
  opens := opens
  prepares id partition conn := effect_prepareNamed (inserts id) (selects id) _ partition conn

theorem looksUp_singleTarget (strategy : PartitionStrategy P) :
    LooksUp (fun _ _ => True) strategy (@singleTargetCatalog P D) where
  missing id partition _ := by
    refine ⟨⟨rfl, trivial⟩, fun found => ?_⟩
    match found with
    | .error e => rfl
    | .ok none => rfl
    | .ok (some target) => rfl
  opens _ _ := trivial
  prepares id partition conn := rfl

theorem looksUp_namedTarget [LinearOrder P] (naming : PartitionNamingStrategy P D) :
    LooksUp (fun _ _ => True) naming.toPartitionStrategy (namedTargetCatalog naming) where
  missing id partition _ := by
    refine ⟨⟨rfl, trivial⟩, fun found => ?_⟩
    match found with
    | .error e => rfl
    | .ok none => rfl
    | .ok (some target) => rfl
  opens _ _ := trivial
  prepares id partition conn := effect_prepareNamed (fun _ _ => trivial) (fun _ => trivial) _ partition conn

variable {strategy : PartitionStrategy P} {catalog : PartitionCatalog P D}

theorem effect_openAndCache (finds : LooksUp looks strategy catalog) (partition : P) (target : DatabaseTarget) :
    (effectDiscipline looks (.load id)).Obeys (fun k _ => k = none) (openAndCache catalog partition target)
      none := by
  have opening : (effectDiscipline (P := P) looks (.load id)).Obeys (fun k _ => k = none)
      (fromCatalog (catalogCall (.openEventStoreConnection target))) none :=
    ⟨⟨rfl, finds.opens id target⟩, fun _ => rfl⟩
  refine opening.andThen (fun k conn known => ?_) fun _ _ known => known
  subst known
  have prepared : (effectDiscipline looks (.load id)).Obeys (fun k _ => k = none)
      (fromCatalog (catalog.prepareConnectionForPartition partition conn)) none :=
    (finds.prepares id partition conn).bind fun _ _ known => known
  refine prepared.andThen (fun k _ known => ?_) fun _ _ known => known
  subst known
  exact ⟨⟨rfl, trivial⟩, fun _ => rfl⟩

theorem effect_openPartitionIfExists (finds : LooksUp looks strategy catalog) {partition : P}
    (routed : strategy.partitionForAggregate id = .ok partition) :
    (effectDiscipline looks (.load id)).Obeys (fun k r => k = lookedUp id r)
      (openPartitionIfExists catalog partition) none := by
  refine ⟨⟨rfl, trivial⟩, fun cached => ?_⟩
  cases cached with
  | some conn => rfl
  | none =>
      have finding : (effectDiscipline looks (.load id)).Obeys (fun k r => k = lookedUp id r)
          (fromCatalog (catalog.targetForExistingPartition partition)) none :=
        (finds.missing id partition routed).bind fun _ _ known => known
      refine finding.andThen (fun k target known => ?_) fun _ _ known => known
      subst known
      cases target with
      | none => rfl
      | some target =>
          exact (effect_openAndCache finds partition target).andThen (fun _ _ known => known)
            fun _ _ known => known

theorem effect_loadAggregate (finds : LooksUp looks strategy catalog) :
    (effectDiscipline looks (.load id)).Obeys (fun k r => k = loadOutcome r)
      (loadAggregate strategy catalog id) none := by
  rw [loadAggregate, partitionFor]
  cases routed : strategy.partitionForAggregate id with
  | error b => rfl
  | ok partition =>
      refine (effect_openPartitionIfExists finds routed).andThen (fun k conn known => ?_)
        fun _ _ known => known
      subst known
      cases conn with
      | none => rfl
      | some conn => exact ⟨⟨rfl, .inl rfl⟩, fun _ => rfl⟩

end Load

/-! ### Calls of the store -/

/-- The result of a call is its effect. Without one the call failed, and not with a conflict. -/
inductive EffectDone : EventStoreCall → Option EventStoreResult → EventStoreResult → Prop
  | settled {call : EventStoreCall} {result : EventStoreResult} :
      EffectDone call (some result) result
  | loadFailed {id : AggregateId} {e : Error} :
      EffectDone (.load id) none (.loaded (.error e))
  | publishFailed {id : AggregateId} {options : PublishOptions} {raws : List RawEvent} {e : Error} :
      (∀ expected actual, e ≠ .revisionConflict expected actual) →
      EffectDone (.publish id options raws) none (.published (.error e))

theorem effectDone_publish {id : AggregateId} {options : PublishOptions} {raws : List RawEvent}
    (r : Except SqliteError ChangeSet) : EffectDone (.publish id options raws) (publishOutcome r)
      (.published (r.mapError SqliteError.into)) := by
  cases r with
  | ok changeset => exact .settled
  | error e =>
      cases e with
      | backend b => exact .publishFailed nofun
      | weeEvents e =>
          cases e with
          | revisionConflict expected actual => exact .settled
          | encodingMismatch _ _ => exact .publishFailed nofun
          | unhandledEventType _ => exact .publishFailed nofun
          | custom _ => exact .publishFailed nofun

/-- Every call of the store returns its effect. -/
theorem effect_call [UlidParser] {looks : AggregateId → CatalogOp D → Prop} {strategy : PartitionStrategy P}
    {catalog : PartitionCatalog P D} (finds : LooksUp looks strategy catalog) (call : EventStoreCall) :
    (effectDiscipline looks call).Obeys (EffectDone call) ((sqliteStore strategy catalog).call call) none := by
  cases call with
  | load id =>
      have loads : (effectDiscipline looks (.load id)).Obeys (fun k r => ∃ inner, k = loadOutcome inner ∧
          r = inner.mapError SqliteError.into) (Sqlite.load strategy catalog id) none :=
        (effect_loadAggregate finds).bind fun _ r known => ⟨r, known, rfl⟩
      refine loads.bind fun k r known => ?_
      obtain ⟨inner, rfl, rfl⟩ := known
      cases inner with
      | ok aggregate => exact .settled
      | error e => exact .loadFailed
  | publish id options raws =>
      have publishes : (effectDiscipline looks (.publish id options raws)).Obeys
          (fun k r => ∃ inner, k = publishOutcome inner ∧ r = inner.mapError SqliteError.into)
          (Sqlite.publish strategy catalog id options raws) none :=
        (effect_publishToAggregate strategy catalog).bind fun _ r known => ⟨r, known, rfl⟩
      refine publishes.bind fun k r known => ?_
      obtain ⟨inner, rfl, rfl⟩ := known
      exact effectDone_publish inner

end WeeEvents.Sqlite
