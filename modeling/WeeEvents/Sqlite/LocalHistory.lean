import WeeEvents.Sqlite.LocalDisk

/-!
# Calls on local files, one after the other

A store opened on an empty root, and loads and publishes with their results. An
aggregate has rows exactly if one of its publishes recorded something; files are
another matter.
-/
namespace WeeEvents.Sqlite
open Foundation

variable {P : Type}

/-- Some database holds a row of the aggregate. -/
def HasEvents (s : LocalDisk P) (id : AggregateId) : Prop :=
  ∃ path, ∃ row ∈ (s.cluster.databases path).events.rows, row.aggregateId = id

theorem hasEvents_congr {s s' : LocalDisk P} {id : AggregateId}
    (same : ∀ path, (s'.cluster.databases path).events = (s.cluster.databases path).events) :
    HasEvents s' id ↔ HasEvents s id := by
  unfold HasEvents
  simp only [same]

/-! ### Publishing -/

section Publish

variable [DecidableEq P] [UlidParser] {s s' : LocalDisk P} {id : AggregateId}
  {options : PublishOptions} {events : List RawEvent}

/-- What an attempt does to the aggregates that have rows. -/
theorem attempt_hasEvents {conn : LocalPath} {r : Except PublishAttemptError ChangeSet}
    (nonempty : events ≠ []) (step : DiskStep s (.tryPublishOnce conn id options events) r s')
    (other : AggregateId) :
    HasEvents s' other ↔ HasEvents s other ∨ other = id ∧ ∃ changeset, r = .ok changeset := by
  obtain ⟨⟨outside, served⟩, -⟩ := step
  obtain ⟨generator, table, attempted, cluster⟩ := serve_tryPublishOnce served
  have databases : s'.cluster.databases = Function.update s.cluster.databases conn
      { s.cluster.databases conn with events := table } := by
    rw [cluster]
  cases r with
  | error e =>
      have unchanged : table = (s.cluster.databases conn).events := tryPublishOnce_error attempted
      have same : ∀ path, (s'.cluster.databases path).events = (s.cluster.databases path).events := by
        intro path
        rw [databases, unchanged]
        rcases eq_or_ne path conn with rfl | ne
        · rw [Function.update_self]
        · rw [Function.update_of_ne ne]
      rw [hasEvents_congr same]
      simp
  | ok changeset =>
      obtain ⟨rows, carries, -⟩ := tryPublishOnce_rows attempted
      constructor
      · rintro ⟨path, row, isRow, rfl⟩
        rw [databases] at isRow
        rcases eq_or_ne path conn with rfl | ne
        · rw [Function.update_self] at isRow
          have isRow : row ∈ table.rows := isRow
          rw [rows] at isRow
          rcases List.mem_append.mp isRow with old | new
          · exact .inl ⟨path, row, old, rfl⟩
          · obtain ⟨event, -, rfl⟩ := List.mem_map.mp new
            exact .inr ⟨Row.aggregateId_store id event, changeset, rfl⟩
        · rw [Function.update_of_ne ne] at isRow
          exact .inl ⟨path, row, isRow, rfl⟩
      · rintro (⟨path, row, isRow, rfl⟩ | ⟨rfl, -⟩)
        · refine ⟨path, row, ?_, rfl⟩
          rw [databases]
          rcases eq_or_ne path conn with rfl | ne
          · rw [Function.update_self]
            show row ∈ table.rows
            rw [rows]
            exact List.mem_append_left _ isRow
          · rw [Function.update_of_ne ne]
            exact isRow
        · obtain ⟨raw, raws, rfl⟩ := List.exists_cons_of_ne_nil nonempty
          obtain ⟨event, recorded, -, -, same⟩ := List.forall₂_cons_right_iff.mp carries
          refine ⟨conn, Row.store other event, ?_, Row.aggregateId_store other event⟩
          rw [databases, Function.update_self]
          show Row.store other event ∈ table.rows
          rw [rows, same, List.map_cons]
          exact List.mem_append_right _ List.mem_cons_self

/-- Every other operation leaves all rows. -/
theorem other_hasEvents {op : StoreOp P LocalPath} {r : op.Res}
    (other : ∀ conn id options events, op ≠ .tryPublishOnce conn id options events)
    (step : DiskStep s op r s') (id : AggregateId) : HasEvents s' id ↔ HasEvents s id := by
  obtain ⟨⟨outside, served⟩, -⟩ := step
  exact hasEvents_congr (serve_other other served).1

/-- Since a publish began, only its own aggregate got rows, and only by an attempt that committed. -/
def GainsRows (id other : AggregateId) (s : LocalDisk P) (k : PublishKnowledge) (s' : LocalDisk P) :
    Prop :=
  HasEvents s' other ↔ HasEvents s other ∨ other = id ∧ k.committed ≠ []

theorem GainsRows.step {other : AggregateId} {k : PublishKnowledge} {s₁ s₂ : LocalDisk P}
    {op : StoreOp P LocalPath} {r : op.Res} (h : GainsRows id other s k s₁)
    (may : publishMay id options events k op) (step : DiskStep s₁ op r s₂) :
    GainsRows id other s (k.learn op r) s₂ := by
  unfold GainsRows at h ⊢
  cases op with
  | tryPublishOnce conn id' options' events' =>
      obtain ⟨rfl, rfl, rfl, nonempty, clean⟩ := may
      rw [attempt_hasEvents nonempty step other, h]
      match r with
      | .ok changeset => simp [PublishKnowledge.learn, clean]
      | .error (.conflict c) => simp [PublishKnowledge.learn]
      | .error (.store e) => simp [PublishKnowledge.learn]
  | loadFromConnection conn id' =>
      rw [other_hasEvents (by simp) step other, h]
      cases r <;> rfl
  | catalog op =>
      rw [other_hasEvents (by simp) step other, h]
      rfl
  | _ =>
      rw [other_hasEvents (by simp) step other, h]
      rfl

/-- A publish gives rows to its own aggregate, where it succeeded with events. -/
theorem publish_hasEvents {strategy : PartitionStrategy P} {catalog : PartitionCatalog P LocalPath}
    {r : Except SqliteError ChangeSet}
    (run : Program.Runs DiskStep s (publishToAggregate id options events strategy catalog) r s')
    (other : AggregateId) : HasEvents s' other ↔
      HasEvents s other ∨ other = id ∧ events ≠ [] ∧ ∃ changeset, r = .ok changeset := by
  have obeys : (publishDiscipline id options events).Obeys (publishDone id options events)
      (publishToAggregate id options events strategy catalog) {} :=
    obeys_publishToAggregate strategy catalog rfl
  have begins : GainsRows id other s {} s := by
    simp [GainsRows]
  obtain ⟨k, known, done⟩ := obeys.runs (fun _ _ _ _ _ may h step => h.step may step) begins run
  unfold GainsRows at known
  rw [known]
  cases r with
  | error e =>
      have none : k.committed = [] := done.1
      simp [none]
  | ok changeset =>
      rcases done with ⟨nonempty, committed⟩ | ⟨empty, none, -⟩
      · simp [nonempty, committed]
      · simp [empty, none]

end Publish

/-! ### Loading -/

section Load

/-- A program that makes no attempt. -/
def silentDiscipline {D : Type} : Discipline (StoreOp P D) StoreOp.Res Unit where
  may _ op := ∀ conn id options events, op ≠ .tryPublishOnce conn id options events
  learn _ _ _ := ()

theorem opens_silent {D : Type} : Opens (P := P) (D := D) silentDiscipline fun _ => True :=
  ⟨fun _ _ _ => ⟨by simp [silentDiscipline], fun _ => trivial⟩,
    fun _ _ _ => ⟨by simp [silentDiscipline], fun _ => trivial⟩,
    fun _ _ _ _ => ⟨by simp [silentDiscipline], fun _ => trivial⟩⟩

theorem silent_loadAggregate {D : Type} (strategy : PartitionStrategy P) (catalog : PartitionCatalog P D)
    (id : AggregateId) : silentDiscipline.Obeys (fun _ _ => True) (loadAggregate strategy catalog id) () := by
  rw [loadAggregate, partitionFor]
  cases strategy.partitionForAggregate id with
  | error b => exact trivial
  | ok partition =>
      refine (opens_silent.openPartitionIfExists catalog partition trivial).andThen
        (fun k found _ => ?_) fun _ _ _ => trivial
      cases found with
      | none => exact trivial
      | some conn => exact ⟨by simp [silentDiscipline], fun _ => trivial⟩

theorem silent_bootstrap {D : Type} (strategy : PartitionStrategy P) (catalog : PartitionCatalog P D) :
    silentDiscipline.Obeys (fun _ _ => True) (bootstrap catalog strategy) () := by
  rw [bootstrap]
  induction strategy.bootstrapPartitions with
  | nil => exact trivial
  | cons partition rest ih =>
      exact (opens_silent.ensurePartitionOpen catalog partition trivial).andThen (fun _ _ _ => ih)
        fun _ _ _ => trivial

variable [DecidableEq P] [UlidParser] {s s' : LocalDisk P}

theorem silent_hasEvents {α : Type} {p : Program (StoreOp P LocalPath) StoreOp.Res α} {a : α}
    (silent : silentDiscipline.Obeys (fun _ _ => True) p ()) (run : Program.Runs DiskStep s p a s')
    (id : AggregateId) : HasEvents s' id ↔ HasEvents s id := by
  have sound : ∀ (k : Unit) (s₁ : LocalDisk P) (op : StoreOp P LocalPath) (r : op.Res)
      (s₂ : LocalDisk P), (∀ conn id options events, op ≠ .tryPublishOnce conn id options events) →
        (HasEvents s₁ id ↔ HasEvents s id) → DiskStep s₁ op r s₂ → (HasEvents s₂ id ↔ HasEvents s id) :=
    fun k s₁ op r s₂ other known step => (other_hasEvents other step id).trans known
  have same : HasEvents s id ↔ HasEvents s id := Iff.rfl
  obtain ⟨_, known, -⟩ := silent.runs sound same run
  exact known

end Load

/-! ### The run -/

section Run

variable [Base32Nopad] (strategy : LocalPartitionStrategy P LocalPath)

def localStore [UlidParser] : EventStore (StoreOp P LocalPath) StoreOp.Res :=
  ⟨load strategy.toPartitionStrategy (localPartitionCatalog strategy),
    publish strategy.toPartitionStrategy (localPartitionCatalog strategy)⟩

abbrev LocalHistory : Type := List (EventStoreCall × EventStoreResult)

/-- Some publish of the aggregate returned a change set with events. -/
def Committed (history : LocalHistory) (id : AggregateId) : Prop :=
  ∃ options events changeset, events ≠ [] ∧
    (.publish id options events, .published (.ok changeset)) ∈ history

variable [DecidableEq P] [UlidParser]

/-- A store that opened an empty root and took calls for aggregates of `ids`, each with whatever
result. -/
inductive LocalRun (ids : AggregateId → Prop) : LocalHistory → LocalDisk P → Prop
  | opened {generator : Generator} {s : LocalDisk P} :
      Program.Runs DiskStep (.fresh generator)
        (bootstrap (localPartitionCatalog strategy) strategy.toPartitionStrategy) (.ok ()) s →
      LocalRun ids [] s
  | call {history : LocalHistory} {s s' : LocalDisk P} {call : EventStoreCall}
      {result : EventStoreResult} : LocalRun ids history s → ids call.target →
      Program.Runs DiskStep s ((localStore strategy).call call) result s' →
      LocalRun ids (history ++ [(call, result)]) s'

variable {strategy} {ids : AggregateId → Prop} {history : LocalHistory} {s s' : LocalDisk P}
  {router : Router strategy}

theorem Handles.runs {id : AggregateId} (sound : Sound router ids s) (inside : ids id) {α : Type}
    {p : Program (StoreOp P LocalPath) StoreOp.Res α} {a : α}
    (obeys : (localDiscipline router id).Obeys (fun _ _ => True) p [])
    (run : Program.Runs DiskStep s p a s') : Sound router ids s' := by
  have begins : Handles router ids id [] s := ⟨sound, fun conn none => by cases none⟩
  obtain ⟨handles, known, -⟩ := obeys.runs (fun _ _ _ _ _ may h step => h.step inside may step) begins run
  exact known.sound

/-- The partitions a store starts with are those of some aggregates. -/
def Bootstraps (router : Router strategy) (ids : AggregateId → Prop) : Prop :=
  ∀ partition ∈ strategy.bootstrapPartitions, ∃ id, ids id ∧ router.route id = partition

theorem Sound.bootstrap (bootstraps : Bootstraps router ids) {r : Except SqliteError Unit}
    (sound : Sound router ids s) (run : Program.Runs DiskStep s
      (Sqlite.bootstrap (localPartitionCatalog strategy) strategy.toPartitionStrategy) r s') :
    Sound router ids s' := by
  have each : ∀ partitions : List P, (∀ partition ∈ partitions, ∃ id, ids id ∧ router.route id = partition) →
      ∀ s r, Sound router ids s → Program.Runs DiskStep s
        (bootstrapEach (localPartitionCatalog strategy) partitions) r s' → Sound router ids s' := by
    intro partitions
    induction partitions with
    | nil =>
        intro _ s r sound run
        obtain ⟨-, rfl⟩ := Program.runs_ret.mp run
        exact sound
    | cons partition rest ih =>
        intro routed s r sound run
        obtain ⟨id, inside, rfl⟩ := routed partition List.mem_cons_self
        have opens : (localDiscipline router id).Obeys (fun _ _ => True)
            (ensurePartitionOpen (localPartitionCatalog strategy) (router.route id)) [] :=
          local_ensurePartitionOpen.mono fun _ _ _ => trivial
        rcases run.of_andThen with ⟨e, -, failed⟩ | ⟨conn, s₁, opened, later⟩
        · exact Handles.runs sound inside opens failed
        · exact ih (fun partition member => routed partition (List.mem_cons_of_mem _ member)) s₁ r
            (Handles.runs sound inside opens opened) later
  exact each _ bootstraps s r sound run

/-- Everything is in its place after every run. -/
theorem LocalRun.sound (bootstraps : Bootstraps router ids) (run : LocalRun strategy ids history s) :
    Sound router ids s := by
  induction run with
  | opened opening => exact (Sound.fresh _).bootstrap bootstraps opening
  | @call history s s' call result _ inside stepped ih =>
      cases call with
      | load id =>
          have loads : (localDiscipline router id).Obeys (fun _ _ => True)
              (load strategy.toPartitionStrategy (localPartitionCatalog strategy) id) [] :=
            local_loadAggregate.bind fun _ _ _ => trivial
          have calls : (localDiscipline router id).Obeys (fun _ _ => True)
              ((localStore strategy).call (.load id)) [] := loads.bind fun _ _ _ => trivial
          exact Handles.runs ih inside calls stepped
      | publish id options events =>
          have publishes : (localDiscipline router id).Obeys (fun _ _ => True)
              (publish strategy.toPartitionStrategy (localPartitionCatalog strategy) id options events) [] :=
            (local_publishToAggregate options events).bind fun _ _ _ => trivial
          have calls : (localDiscipline router id).Obeys (fun _ _ => True)
              ((localStore strategy).call (.publish id options events)) [] :=
            publishes.bind fun _ _ _ => trivial
          exact Handles.runs ih inside calls stepped

/-- The aggregates with rows are those for which a publish returned events. -/
theorem LocalRun.committed (run : LocalRun strategy ids history s) (id : AggregateId) :
    HasEvents s id ↔ Committed history id := by
  induction run with
  | opened opening =>
      rw [silent_hasEvents (silent_bootstrap _ _) opening]
      constructor
      · rintro ⟨path, row, none, -⟩
        cases none
      · rintro ⟨options, events, changeset, -, none⟩
        cases none
  | @call history s s' call result _ _ stepped ih =>
      have more : ∀ id, Committed (history ++ [(call, result)]) id ↔ Committed history id ∨
          ∃ options events changeset, events ≠ [] ∧
            (.publish id options events, .published (.ok changeset)) = (call, result) := by
        intro id
        unfold Committed
        simp only [List.mem_append, List.mem_singleton, and_or_left, exists_or]
      rw [more, ← ih]
      cases call with
      | load id' =>
          have loads : silentDiscipline.Obeys (fun _ _ => True) ((localStore strategy).call (.load id')) () := by
            have loads : silentDiscipline.Obeys (fun _ _ => True)
                (load strategy.toPartitionStrategy (localPartitionCatalog strategy) id') () :=
              (silent_loadAggregate _ _ id').bind fun _ _ _ => trivial
            exact loads.bind fun _ _ _ => trivial
          rw [silent_hasEvents loads stepped]
          simp
      | publish id' options events =>
          obtain ⟨r, s₁, called, finish⟩ := Program.Runs.of_bind
            (p := publish strategy.toPartitionStrategy (localPartitionCatalog strategy) id' options events)
            stepped
          obtain ⟨rfl, rfl⟩ := Program.runs_ret.mp finish
          obtain ⟨r', s₂, published, finish⟩ := Program.Runs.of_bind
            (p := publishToAggregate id' options events strategy.toPartitionStrategy
              (localPartitionCatalog strategy)) called
          obtain ⟨rfl, rfl⟩ := Program.runs_ret.mp finish
          rw [publish_hasEvents published]
          cases r' with
          | error e => simp [Except.mapError]
          | ok changeset =>
              simp only [Except.mapError, Prod.mk.injEq, EventStoreCall.publish.injEq,
                EventStoreResult.published.injEq, Except.ok.injEq]
              constructor
              · rintro (old | ⟨rfl, nonempty, -⟩)
                · exact .inl old
                · exact .inr ⟨options, events, changeset, nonempty, ⟨rfl, rfl, rfl⟩, rfl⟩
              · rintro (old | ⟨options', events', changeset', nonempty, ⟨rfl, rfl, rfl⟩, -⟩)
                · exact .inl old
                · exact .inr ⟨rfl, nonempty, changeset, rfl⟩

end Run
end WeeEvents.Sqlite
