import WeeEvents.Sqlite.Store

/-!
# What a publish call may do

The discipline of `publish_to_aggregate`: every attempt is for the call's own
aggregate, options and events, no attempt follows a committed one, and the
result says what was committed. It is proved from the three loops once, for
every catalog and whatever any operation answers.
-/
namespace WeeEvents.Sqlite
open Foundation

/-- What a publish call has seen of its own attempts. -/
structure PublishKnowledge where
  committed : List ChangeSet := []
  reported : List PublishConflict := []
  failed : List SqliteError := []
  loaded : Option Aggregate := none

variable {P D : Type}

section Loops

variable {K : Type} {E : Discipline (StoreOp P D) StoreOp.Res K} {known : K → Prop} {conn : D}
  {id : AggregateId} {options : PublishOptions} {events : List RawEvent} {k : K}

/-- What opening a partition asks of a discipline: the operations that open one are allowed
and keep what is known. -/
structure Opens (E : Discipline (StoreOp P D) StoreOp.Res K) (known : K → Prop) : Prop where
  catalog : ∀ k op, known k → E.may k (.catalog op) ∧ ∀ r, known (E.learn k (.catalog op) r)
  cached : ∀ k partition, known k → E.may k (.cachedConnection partition) ∧
    ∀ r, known (E.learn k (.cachedConnection partition) r)
  cache : ∀ k partition conn, known k → E.may k (.cacheConnection partition conn) ∧
    ∀ r, known (E.learn k (.cacheConnection partition conn) r)

/-- The errors of an opening are the crate's own. -/
def Plain {α : Type} (r : Except SqliteError α) : Prop := ∀ e, r = .error e → ∃ b, e = .backend b

theorem Plain.error {α β : Type} {e : SqliteError} (h : Plain (.error e : Except SqliteError α)) :
    Plain (.error e : Except SqliteError β) := by
  intro e' same
  cases same
  exact h e rfl

theorem Plain.ok {α : Type} (a : α) : Plain (.ok a : Except SqliteError α) :=
  fun _ same => by cases same

theorem Opens.fromCatalog (opens : Opens E known) {α : Type} (p : CatalogProgram D α) (h : known k) :
    E.Obeys (fun k r => known k ∧ Plain r) (Sqlite.fromCatalog p : StoreProgram P D α) k := by
  have asked : E.Obeys (fun k _ => known k)
      (p.lift StoreOp.catalog fun _ r => r : Program (StoreOp P D) StoreOp.Res _) k :=
    Discipline.kept_lift opens.catalog p h
  refine asked.bind fun k r h => ⟨h, ?_⟩
  intro e same
  cases r with
  | ok a => cases same
  | error b =>
      cases same
      exact ⟨b, rfl⟩

theorem Opens.openAndCache (opens : Opens E known) (catalog : PartitionCatalog P D) (partition : P)
    (target : DatabaseTarget) (h : known k) :
    E.Obeys (fun k r => known k ∧ Plain r) (openAndCache catalog partition target) k := by
  refine (opens.fromCatalog _ h).andThen (fun k conn h => ?_) fun k e h => ⟨h.1, h.2.error⟩
  refine (opens.fromCatalog _ h.1).andThen (fun k _ h => ?_) fun k e h => ⟨h.1, h.2.error⟩
  obtain ⟨may, learned⟩ := opens.cache k partition conn h.1
  exact ⟨may, fun r => ⟨learned r, .ok conn⟩⟩

theorem Opens.ensurePartitionOpen (opens : Opens E known) (catalog : PartitionCatalog P D)
    (partition : P) (h : known k) :
    E.Obeys (fun k r => known k ∧ Plain r) (ensurePartitionOpen catalog partition) k := by
  obtain ⟨may, learned⟩ := opens.cached k partition h
  refine ⟨may, fun cached => ?_⟩
  have h := learned cached
  cases cached with
  | some conn => exact ⟨h, .ok conn⟩
  | none =>
      refine (opens.fromCatalog _ h).andThen (fun k target h => ?_) fun k e h => ⟨h.1, h.2.error⟩
      exact opens.openAndCache catalog partition target h.1

theorem Opens.openPartitionIfExists (opens : Opens E known) (catalog : PartitionCatalog P D)
    (partition : P) (h : known k) :
    E.Obeys (fun k _ => known k) (openPartitionIfExists catalog partition) k := by
  obtain ⟨may, learned⟩ := opens.cached k partition h
  refine ⟨may, fun cached => ?_⟩
  have h := learned cached
  cases cached with
  | some conn => exact h
  | none =>
      refine (opens.fromCatalog _ h).andThen (fun k found h => ?_) fun k e h => h.1
      cases found with
      | none => exact h.1
      | some target =>
          exact (opens.openAndCache catalog partition target h.1).andThen (fun k conn h => h.1)
            fun k e h => h.1

/-- What publishing through a connection asks of a discipline: attempts and pauses are allowed
and leave known what they need. -/
structure Publishes (E : Discipline (StoreOp P D) StoreOp.Res K) (known : K → Prop) (conn : D)
    (id : AggregateId) (options : PublishOptions) (events : List RawEvent) : Prop where
  attempt : ∀ k, known k → E.may k (.tryPublishOnce conn id options events) ∧
    ∀ r, known (E.learn k (.tryPublishOnce conn id options events) r)
  load : ∀ k, known k → E.may k (.loadFromConnection conn id) ∧
    ∀ r, known (E.learn k (.loadFromConnection conn id) r)
  sleep : ∀ k backoffMs, known k → E.may k (.sleep backoffMs) ∧
    ∀ r, known (E.learn k (.sleep backoffMs) r)
  unreachable : ∀ k message, known k → E.may k (.unreachable message)

theorem Publishes.retryWhileBusy (publishes : Publishes E known conn id options events)
    (remaining : Nat) (result : Except PublishAttemptError ChangeSet) (h : known k) :
    E.Obeys (fun k _ => known k) (retryWhileBusy id options events conn remaining result) k := by
  induction remaining generalizing k result with
  | zero => exact h
  | succ remaining ih =>
      match result with
      | .ok changeset => exact h
      | .error (.conflict c) => exact h
      | .error (.store error) =>
          rw [Sqlite.retryWhileBusy]
          split
          · obtain ⟨may, learned⟩ := publishes.sleep k _ h
            refine ⟨may, fun r => ?_⟩
            obtain ⟨may, learned⟩ := publishes.attempt _ (learned r)
            exact ⟨may, fun result => ih result (learned result)⟩
          · exact h

theorem Publishes.retryOnConflict [UlidParser] (publishes : Publishes E known conn id options events)
    (canAutoRetry : Bool) (maxAttempts remaining : Nat) (last : Option RetryDiagnostics) (h : known k) :
    E.Obeys (fun k _ => known k)
      (retryOnConflict id options events conn canAutoRetry maxAttempts remaining last) k := by
  induction remaining generalizing k last with
  | zero =>
      cases last with
      | none => exact ⟨publishes.unreachable k _ h, nofun⟩
      | some diagnostics => exact h
  | succ remaining ih =>
      obtain ⟨may, learned⟩ := publishes.attempt k h
      refine ⟨may, fun first => ?_⟩
      refine (publishes.retryWhileBusy maxBusyRetries first (learned first)).bind fun k result h => ?_
      match result with
      | .ok changeset => exact h
      | .error (.store error) => exact h
      | .error (.conflict c) =>
          dsimp only
          split
          · split
            · obtain ⟨may, learned⟩ := publishes.sleep k _ h
              exact ⟨may, fun r => ih _ (learned r)⟩
            · exact ih _ h
          · exact h

theorem Publishes.publishWithConnection [UlidParser]
    (publishes : Publishes E known conn id options events) (h : known k) :
    E.Obeys (fun k _ => known k) (publishWithConnection id options events conn) k := by
  rw [Sqlite.publishWithConnection]
  split
  · obtain ⟨may, learned⟩ := publishes.load k h
    refine ⟨may, fun r => ?_⟩
    cases r with
    | ok aggregate => exact learned (.ok aggregate)
    | error e => exact learned (.error e)
  · exact publishes.retryOnConflict _ _ _ _ h

/-- The outer loop: a partition that is opened, published through, and at times given up. -/
theorem Publishes.retryUntilReady [UlidParser] {catalog : PartitionCatalog P D} {partition : P}
    {opened : D → K → Prop} {always : K → Prop}
    (publishes : ∀ conn, Publishes E (opened conn) conn id options events)
    (opens : ∀ k, always k → E.Obeys (fun k r => always k ∧ ∀ conn, r = .ok conn → opened conn k)
      (ensurePartitionOpen catalog partition) k)
    (still : ∀ conn k, opened conn k → always k)
    (remove : ∀ k, always k → E.may k (.removeConnection partition) ∧
      ∀ r, always (E.learn k (.removeConnection partition) r))
    (sleep : ∀ k backoffMs, always k → E.may k (.sleep backoffMs) ∧
      ∀ r, always (E.learn k (.sleep backoffMs) r))
    (unreachable : ∀ k message, always k → E.may k (.unreachable message))
    (remaining : Nat) (h : always k) :
    E.Obeys (fun k _ => always k)
      (retryUntilReady id options events catalog partition remaining) k := by
  induction remaining generalizing k with
  | zero => exact ⟨unreachable k _ h, nofun⟩
  | succ remaining ih =>
      have once : E.Obeys (fun k _ => always k)
          ((ensurePartitionOpen catalog partition).andThen fun conn =>
            Sqlite.publishWithConnection id options events conn) k := by
        refine (opens k h).andThen (fun k conn known => ?_) fun k e known => known.1
        exact ((publishes conn).publishWithConnection (known.2 conn rfl)).mono
          fun k r => still conn k
      refine once.bind fun k r h => ?_
      cases r with
      | ok changeset => exact h
      | error e =>
          dsimp only
          split
          · obtain ⟨may, learned⟩ := remove k h
            refine ⟨may, fun r => ?_⟩
            obtain ⟨may, learned⟩ := sleep _ lazyCreatePartitionReadyDelayMs (learned r)
            exact ⟨may, fun r => ih (learned r)⟩
          · exact h

end Loops

section Discipline

variable (id : AggregateId) (options : PublishOptions) (events : List RawEvent)

def PublishKnowledge.learn (k : PublishKnowledge) : (op : StoreOp P D) → op.Res → PublishKnowledge
  | .tryPublishOnce _ _ _ _, .ok changeset => { k with committed := k.committed ++ [changeset] }
  | .tryPublishOnce _ _ _ _, .error (.conflict c) => { k with reported := k.reported ++ [c] }
  | .tryPublishOnce _ _ _ _, .error (.store e) => { k with failed := k.failed ++ [e] }
  | .loadFromConnection _ _, .ok aggregate => { k with loaded := some aggregate }
  | _, _ => k

def publishMay (k : PublishKnowledge) : StoreOp P D → Prop
  | .tryPublishOnce _ id' options' events' =>
      id' = id ∧ options' = options ∧ events' = events ∧ events ≠ [] ∧ k.committed = []
  | .loadFromConnection _ id' => id' = id ∧ events = []
  | .enumerateAllFromConnection _ => False
  | .enumerateByTypeFromConnection _ _ => False
  | .unreachable _ => False
  | _ => True

def publishDiscipline : Discipline (StoreOp P D) StoreOp.Res PublishKnowledge where
  may := publishMay id options events
  learn := PublishKnowledge.learn

/-- A conflict was reported by an attempt that had an expectation to check, or
some attempt failed with that very error. -/
def conflictReported (k : PublishKnowledge) (error : SqliteError) : Prop :=
  ∀ expected actual, error = .weeEvents (.revisionConflict expected actual) →
    (options.expectedRevision.isSome ∧
      ∃ c ∈ k.reported, c.expected = expected ∧ c.actual = actual) ∨ error ∈ k.failed

/-- What the result of a publish call says about its attempts. -/
def publishDone (k : PublishKnowledge) : Except SqliteError ChangeSet → Prop
  | .ok changeset =>
      (events ≠ [] ∧ k.committed = [changeset]) ∨
      (events = [] ∧ k.committed = [] ∧
        ∃ aggregate, k.loaded = some aggregate ∧ changeset = ⟨id, aggregate.revision, []⟩)
  | .error error => k.committed = [] ∧ (events ≠ [] → conflictReported options k error)

/-- What the result of the attempts made so far says. -/
def attemptDone (k : PublishKnowledge) : Except PublishAttemptError ChangeSet → Prop
  | .ok changeset => k.committed = [changeset]
  | .error (.conflict c) => k.committed = [] ∧ c ∈ k.reported
  | .error (.store error) => k.committed = [] ∧ error ∈ k.failed

/-- What opening a partition leaves known. -/
def openDone (k : PublishKnowledge) (r : Except SqliteError D) : Prop :=
  k.committed = [] ∧ ∀ e, r = .error e → ∃ b, e = .backend b

variable {id options events} {k : PublishKnowledge}

theorem conflictReported_backend (b : BackendError) : conflictReported options k (.backend b) :=
  fun _ _ same => by cases same

/-! ### The inner loops -/

theorem obeys_tryPublishOnce (conn : D) (nonempty : events ≠ []) (clean : k.committed = []) :
    (publishDiscipline (P := P) id options events).Obeys attemptDone
      (storeCall (.tryPublishOnce conn id options events)) k := by
  refine ⟨⟨rfl, rfl, rfl, nonempty, clean⟩, fun r => ?_⟩
  match r with
  | .ok changeset => simp [publishDiscipline, PublishKnowledge.learn, attemptDone, clean]
  | .error (.conflict c) => simp [publishDiscipline, PublishKnowledge.learn, attemptDone, clean]
  | .error (.store e) => simp [publishDiscipline, PublishKnowledge.learn, attemptDone, clean]

theorem obeys_retryWhileBusy (conn : D) (nonempty : events ≠ []) (remaining : Nat)
    {result : Except PublishAttemptError ChangeSet} (known : attemptDone k result) :
    (publishDiscipline (P := P) id options events).Obeys attemptDone
      (retryWhileBusy id options events conn remaining result) k := by
  induction remaining generalizing k result with
  | zero => exact known
  | succ remaining ih =>
      match result, known with
      | .ok changeset, known => exact known
      | .error (.conflict c), known => exact known
      | .error (.store error), known =>
          rw [retryWhileBusy]
          split
          · refine ⟨trivial, fun _ => ?_⟩
            exact (obeys_tryPublishOnce conn nonempty known.1).bind fun k r known => ih known
          · exact known

theorem obeys_retryOnConflict [UlidParser] (conn : D) (nonempty : events ≠ [])
    (maxAttempts remaining : Nat) (last : Option RetryDiagnostics)
    (some_left : remaining ≠ 0 ∨ last.isSome) (clean : k.committed = []) :
    (publishDiscipline (P := P) id options events).Obeys (publishDone id options events)
      (retryOnConflict id options events conn options.expectedRevision.isNone maxAttempts
        remaining last) k := by
  induction remaining generalizing k last with
  | zero =>
      cases last with
      | none => simp at some_left
      | some diagnostics => exact ⟨clean, fun _ _ _ same => by cases same⟩
  | succ remaining ih =>
      refine (obeys_tryPublishOnce conn nonempty clean).bind fun k first known => ?_
      refine (obeys_retryWhileBusy conn nonempty maxBusyRetries known).bind fun k result known => ?_
      match result, known with
      | .ok changeset, known => exact .inl ⟨nonempty, known⟩
      | .error (.store error), known => exact ⟨known.1, fun _ _ _ _ => .inr known.2⟩
      | .error (.conflict c), known =>
          dsimp only
          split
          · split
            · exact ⟨trivial, fun _ => ih _ (.inr rfl) known.1⟩
            · exact ih _ (.inr rfl) known.1
          · next expecting =>
              refine ⟨known.1, fun _ expected actual same => .inl ⟨?_, c, known.2, ?_⟩⟩
              · simpa [Option.isSome_iff_ne_none] using expecting
              · cases same
                exact ⟨rfl, rfl⟩

theorem obeys_publishWithConnection [UlidParser] (conn : D) (clean : k.committed = []) :
    (publishDiscipline (P := P) id options events).Obeys (publishDone id options events)
      (publishWithConnection id options events conn) k := by
  rw [publishWithConnection]
  split
  · next empty =>
      rw [List.isEmpty_iff] at empty
      refine ⟨⟨rfl, empty⟩, fun r => ?_⟩
      cases r with
      | ok aggregate => exact .inr ⟨empty, clean, aggregate, rfl, rfl⟩
      | error e => exact ⟨clean, fun nonempty => absurd empty nonempty⟩
  · next nonempty =>
      rw [List.isEmpty_iff] at nonempty
      refine obeys_retryOnConflict conn nonempty _ _ none (.inl ?_) clean
      split <;> decide

/-! ### Opening the partition, and the outer loop -/

/-- Nothing that opens a partition commits anything. -/
theorem opens_clean : Opens (P := P) (D := D) (publishDiscipline id options events) (·.committed = []) :=
  ⟨fun _ _ clean => ⟨trivial, fun _ => clean⟩, fun _ _ clean => ⟨trivial, fun _ => clean⟩,
    fun _ _ _ clean => ⟨trivial, fun _ => clean⟩⟩

theorem obeys_ensurePartitionOpen (catalog : PartitionCatalog P D) (partition : P)
    (clean : k.committed = []) :
    (publishDiscipline id options events).Obeys openDone
      (ensurePartitionOpen catalog partition) k :=
  opens_clean.ensurePartitionOpen catalog partition clean

theorem obeys_openAndPublish [UlidParser] (catalog : PartitionCatalog P D) (partition : P)
    (clean : k.committed = []) :
    (publishDiscipline id options events).Obeys (publishDone id options events)
      ((ensurePartitionOpen catalog partition).andThen fun conn =>
        publishWithConnection id options events conn) k := by
  refine (obeys_ensurePartitionOpen catalog partition clean).andThen
    (fun k conn known => obeys_publishWithConnection conn known.1) fun k e known => ?_
  obtain ⟨b, rfl⟩ := known.2 e rfl
  exact ⟨known.1, fun _ => conflictReported_backend b⟩

theorem obeys_retryUntilReady [UlidParser] (catalog : PartitionCatalog P D) (partition : P)
    (remaining : Nat) (clean : k.committed = []) :
    (publishDiscipline id options events).Obeys (publishDone id options events)
      (retryUntilReady id options events catalog partition (remaining + 1)) k := by
  induction remaining generalizing k with
  | zero =>
      refine (obeys_openAndPublish catalog partition clean).bind fun k r known => ?_
      cases r with
      | ok changeset => exact known
      | error e =>
          simp only [ne_eq, not_true_eq_false, decide_false, Bool.and_false, Bool.false_eq_true,
            if_false]
          exact known
  | succ remaining ih =>
      refine (obeys_openAndPublish catalog partition clean).bind fun k r known => ?_
      cases r with
      | ok changeset => exact known
      | error e =>
          dsimp only
          split
          · exact ⟨trivial, fun _ => ⟨trivial, fun _ => ih known.1⟩⟩
          · exact known

theorem obeys_publishToAggregate [UlidParser] (strategy : PartitionStrategy P)
    (catalog : PartitionCatalog P D) (clean : k.committed = []) :
    (publishDiscipline id options events).Obeys (publishDone id options events)
      (publishToAggregate id options events strategy catalog) k := by
  rw [publishToAggregate, partitionFor]
  cases strategy.partitionForAggregate id with
  | ok partition => exact obeys_retryUntilReady catalog partition 29 clean
  | error b => exact ⟨clean, fun _ => conflictReported_backend b⟩

theorem obeys_publish [UlidParser] (strategy : PartitionStrategy P) (catalog : PartitionCatalog P D)
    (clean : k.committed = []) :
    (publishDiscipline id options events).Obeys
      (fun k r => ∃ r', publishDone id options events k r' ∧ r = r'.mapError SqliteError.into)
      (publish strategy catalog id options events) k :=
  (obeys_publishToAggregate strategy catalog clean).bind fun _ r known => ⟨r, known, rfl⟩

end Discipline
end WeeEvents.Sqlite
