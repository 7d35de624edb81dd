import WeeEvents.Sqlite.Attempts
import WeeEvents.Sqlite.Cluster
import WeeEvents.Sqlite.Catalogs
import WeeEvents.AtomicStore

/-!
# The SQLite store at work on one database

One database that exists, and calls of one store instance with no other call on
the way: each is one step on the log the table holds, whatever else fails.
-/
namespace WeeEvents.Sqlite
open Foundation

variable {P : Type}

/-- The outside finds the database: its file exists, its target is known. -/
def Outside.Present {D : Type} (outside : Outside D) : Prop :=
  outside.pathExists = true ∧ outside.existing.isSome = true

/-- An operation of the instance while the database exists. -/
def PresentStep [DecidableEq P] [UlidParser] (self : Nat) (w : Cluster P Unit)
    (op : StoreOp P Unit) (r : op.Res) (w' : Cluster P Unit) : Prop :=
  ∃ outside, outside.Present ∧ serve outside self w op = some (r, w')

/-- The one database holds the log. -/
def Holds (w : Cluster P Unit) (log : EventLog) : Prop := Logged (w.databases ()).events log

theorem Logged.ordered {t : EventsTable} {log : EventLog} (h : Logged t log) : log.Ordered :=
  ⟨h.increasing, h.nonzero⟩

section Publish

variable {id : AggregateId} {options : PublishOptions} {raws : List RawEvent} {log : EventLog}
  {w w' : Cluster P Unit} {k : PublishKnowledge}

/-- What a publish call has done so far to a table that held the log. -/
structure Progress (id : AggregateId) (options : PublishOptions) (raws : List RawEvent)
    (log : EventLog) (k : PublishKnowledge) (w : Cluster P Unit) : Prop where
  unchanged : k.committed = [] → Holds w log
  committed : ∀ changeset, k.committed = [changeset] → ∃ log', Holds w log' ∧
    StoreStep log (.publish id options raws) (.ok changeset) log'
  loaded : ∀ aggregate, k.loaded = some aggregate →
    aggregate = Aggregate.fromEvents id (log.stream id)
  nothing : raws = [] → k.committed = []

theorem Progress.start (holds : Holds w log) : Progress id options raws log {} w := by
  refine ⟨fun _ => holds, ?_, ?_, fun _ => rfl⟩
  · intro changeset committed
    cases committed
  · intro aggregate loaded
    cases loaded

/-- An operation that leaves the rows and teaches nothing. -/
theorem Progress.keep (h : Progress id options raws log k w)
    (events : (w'.databases ()).events = (w.databases ()).events) :
    Progress id options raws log k w' := by
  refine ⟨?_, ?_, h.loaded, h.nothing⟩
  · intro clean
    rw [Holds, events]
    exact h.unchanged clean
  · intro changeset one
    obtain ⟨log', holds, step⟩ := h.committed changeset one
    rw [Holds, ← events] at holds
    exact ⟨log', holds, step⟩

variable [UlidParser]

theorem Progress.attempt [DecidableEq P] {outside : Outside Unit} {self : Nat}
    (h : Progress id options raws log k w) (nonempty : raws ≠ []) (clean : k.committed = [])
    {r : Except PublishAttemptError ChangeSet}
    (served : serve outside self w (.tryPublishOnce () id options raws) = some (r, w')) :
    Progress id options raws log (k.learn (.tryPublishOnce () id options raws : StoreOp P Unit) r) w' := by
  obtain ⟨generator, table, once, rfl⟩ := serve_tryPublishOnce served
  have logged : Logged (w.databases ()).events log := h.unchanged clean
  match r with
  | .ok changeset =>
      obtain ⟨-, carries, rfl, revision⟩ := tryPublishOnce_rows once
      have grown := logged.tryPublishOnce once
      have asked : ∀ e, options.expectedRevision = some e →
          e = lastRevision (log.stream changeset.aggregateId) :=
        fun e expecting => (logged.tryPublishOnce_expected nonempty expecting once).symm
      have step := StoreStep.appended nonempty carries asked grown.ordered
      rw [← revision] at step
      refine ⟨?_, ?_, h.loaded, fun empty => absurd empty nonempty⟩
      · intro none
        simp [PublishKnowledge.learn] at none
      · intro changeset' one
        simp only [PublishKnowledge.learn, clean, List.nil_append, List.cons.injEq, and_true] at one
        subst one
        refine ⟨log ++ entries changeset.aggregateId changeset.events, ?_, step⟩
        simpa [Holds] using grown
  | .error e =>
      have same : table = (w.databases ()).events := tryPublishOnce_error once
      have kept : Progress id options raws log k { w with
          generators := Function.update w.generators self generator
          databases := Function.update w.databases () { w.databases () with events := table } } := by
        apply h.keep
        dsimp only
        rw [Function.update_self]
        exact same
      cases e with
      | conflict c => exact ⟨kept.unchanged, kept.committed, kept.loaded, kept.nothing⟩
      | store e => exact ⟨kept.unchanged, kept.committed, kept.loaded, kept.nothing⟩

/-- Each operation of a publish call keeps its progress. -/
theorem Progress.step [DecidableEq P] {self : Nat} (k : PublishKnowledge) (w : Cluster P Unit)
    (op : StoreOp P Unit) (r : op.Res) (w' : Cluster P Unit) (may : publishMay id options raws k op)
    (h : Progress id options raws log k w) (step : PresentStep self w op r w') :
    Progress id options raws log (k.learn op r) w' := by
  obtain ⟨outside, -, served⟩ := step
  cases op with
  | tryPublishOnce conn id' options' raws' =>
      obtain ⟨rfl, rfl, rfl, nonempty, clean⟩ := may
      exact h.attempt nonempty clean served
  | loadFromConnection conn id' =>
      obtain ⟨rfl, empty⟩ := may
      have logged : Logged (w.databases ()).events log := h.unchanged (h.nothing empty)
      simp only [serve] at served
      split at served
      · cases served
        exact h
      · rw [logged.load] at served
        cases served
        refine ⟨h.unchanged, h.committed, ?_, h.nothing⟩
        intro aggregate learned
        exact (Option.some.inj learned).symm
  | enumerateAllFromConnection conn => cases may
  | enumerateByTypeFromConnection conn type => cases may
  | unreachable message => cases may
  | catalog op => exact h.keep ((serve_other (by simp) served).1 ())
  | cachedConnection partition => exact h.keep ((serve_other (by simp) served).1 ())
  | cacheConnection partition conn => exact h.keep ((serve_other (by simp) served).1 ())
  | removeConnection partition => exact h.keep ((serve_other (by simp) served).1 ())
  | cachedPartitions => exact h.keep ((serve_other (by simp) served).1 ())
  | sleep backoffMs => exact h.keep ((serve_other (by simp) served).1 ())

/-- `publish`, run alone on the database. -/
theorem Holds.publish [DecidableEq P] {self : Nat} (holds : Holds w log)
    {strategy : PartitionStrategy P} {catalog : PartitionCatalog P Unit}
    {r : Except Error ChangeSet}
    (run : Program.Runs (PresentStep self) w (publish strategy catalog id options raws) r w') :
    ∃ log', Holds w' log' ∧ StoreStep log (.publish id options raws) r log' := by
  obtain ⟨k, progress, inner, known, rfl⟩ :=
    (obeys_publish strategy catalog (k := {}) rfl).runs Progress.step (Progress.start holds) run
  cases inner with
  | error e => exact ⟨log, progress.unchanged known.1, .publishFailed⟩
  | ok changeset =>
      rcases known with ⟨-, one⟩ | ⟨rfl, clean, aggregate, loaded, rfl⟩
      · exact progress.committed changeset one
      · obtain rfl := progress.loaded aggregate loaded
        exact ⟨log, progress.unchanged clean, .nothing⟩

end Publish

section Load

variable {id : AggregateId} {log : EventLog} {w w' : Cluster P Unit}

/-- What a load has seen: an aggregate, or that the database is missing. -/
structure LoadKnowledge where
  loaded : Option Aggregate := none
  missing : Bool := false

def LoadKnowledge.learn (k : LoadKnowledge) : (op : StoreOp P Unit) → op.Res → LoadKnowledge
  | .catalog (.pathExists _), r => { k with missing := k.missing || !r }
  | .catalog .existingTarget, .ok none => { k with missing := true }
  | .catalog (.targetForExistingName _), .ok none => { k with missing := true }
  | .loadFromConnection _ _, .ok aggregate => { k with loaded := some aggregate }
  | _, _ => k

def loadDiscipline (id : AggregateId) : Discipline (StoreOp P Unit) StoreOp.Res LoadKnowledge where
  may _ op := match op with
    | .tryPublishOnce _ _ _ _ => False
    | .loadFromConnection _ id' => id' = id
    | _ => True
  learn := LoadKnowledge.learn

/-- A catalog that reports no target only where the database is missing. -/
def FindsExisting (catalog : PartitionCatalog P Unit) : Prop :=
  ∀ id partition k, (@loadDiscipline P id).Obeys (fun k r => r = .ok none → k.missing = true)
    ((catalog.targetForExistingPartition partition).lift StoreOp.catalog fun _ r => r) k

theorem findsExisting_singleTarget : FindsExisting (@singleTargetCatalog P Unit) := by
  intro id partition k
  refine ⟨trivial, fun r absent => ?_⟩
  subst absent
  rfl

theorem findsExisting_namedTarget [LinearOrder P] (strategy : PartitionNamingStrategy P Unit) :
    FindsExisting (namedTargetCatalog strategy) := by
  intro id partition k
  refine ⟨trivial, fun r absent => ?_⟩
  subst absent
  rfl

theorem findsExisting_local [Base32Nopad] (strategy : LocalPartitionStrategy P Unit) :
    FindsExisting (localPartitionCatalog strategy) := by
  intro id partition k
  rw [localPartitionCatalog]
  dsimp only
  cases pathForPartition strategy partition with
  | error e =>
      intro absent
      cases absent
  | ok path =>
      refine ⟨trivial, fun pathExists absent => ?_⟩
      cases pathExists with
      | true => cases absent
      | false => exact Bool.or_true k.missing

/-- What a finished load says. -/
def loadDone (k : LoadKnowledge) (r : Except SqliteError Aggregate) : Prop :=
  ∀ aggregate, r = .ok aggregate → k.loaded = some aggregate ∨ k.missing = true

theorem loads_fromCatalog {α : Type} (p : CatalogProgram Unit α) (k : LoadKnowledge) :
    (@loadDiscipline P id).Obeys (fun _ _ => True) (fromCatalog p) k :=
  (Discipline.allowed_lift (fun _ _ => trivial) p).bind fun _ _ _ => trivial

theorem loads_openAndCache (catalog : PartitionCatalog P Unit) (partition : P)
    (target : DatabaseTarget) (k : LoadKnowledge) :
    (loadDiscipline id).Obeys (fun _ _ => True) (openAndCache catalog partition target) k := by
  refine (loads_fromCatalog _ k).andThen (fun k conn _ => ?_) fun _ _ _ => trivial
  refine (loads_fromCatalog _ k).andThen (fun k _ _ => ?_) fun _ _ _ => trivial
  exact ⟨trivial, fun _ => trivial⟩

/-- The partition is only left unopened when its database is missing. -/
theorem loads_openPartitionIfExists {catalog : PartitionCatalog P Unit}
    (finds : FindsExisting catalog) (partition : P) (k : LoadKnowledge) :
    (loadDiscipline id).Obeys (fun k r => r = .ok none → k.missing = true)
      (openPartitionIfExists catalog partition) k := by
  refine ⟨trivial, fun cached => ?_⟩
  cases cached with
  | some conn =>
      intro absent
      cases absent
  | none =>
      have finding : (@loadDiscipline P id).Obeys (fun k r => r = .ok none → k.missing = true)
          (fromCatalog (catalog.targetForExistingPartition partition))
          ((loadDiscipline id).learn k (.cachedConnection partition) none) := by
        refine (finds id partition _).bind fun k r known absent => known ?_
        cases r with
        | ok target => rw [Except.ok.inj absent]
        | error e => cases absent
      refine finding.andThen (fun k target known => ?_) fun k e _ absent => by cases absent
      cases target with
      | none => exact fun _ => known rfl
      | some target =>
          refine (loads_openAndCache catalog partition target k).andThen (fun k conn _ => ?_)
            fun k e _ absent => by cases absent
          intro absent
          cases absent

theorem loads_loadAggregate (strategy : PartitionStrategy P) {catalog : PartitionCatalog P Unit}
    (finds : FindsExisting catalog) (k : LoadKnowledge) :
    (loadDiscipline id).Obeys loadDone (loadAggregate strategy catalog id) k := by
  rw [loadAggregate, partitionFor]
  cases strategy.partitionForAggregate id with
  | error b =>
      intro aggregate failed
      cases failed
  | ok partition =>
      refine (loads_openPartitionIfExists finds partition k).andThen (fun k conn known => ?_)
        fun k e _ aggregate failed => by cases failed
      cases conn with
      | none => exact fun aggregate _ => .inr (known rfl)
      | some conn =>
          refine ⟨rfl, fun r => ?_⟩
          intro aggregate returned
          subst returned
          exact .inl rfl

/-- While the database exists, what was loaded is the stream and nothing is missing. -/
structure Loading (id : AggregateId) (log : EventLog) (k : LoadKnowledge) (w : Cluster P Unit) :
    Prop where
  holds : Holds w log
  loaded : ∀ aggregate, k.loaded = some aggregate →
    aggregate = Aggregate.fromEvents id (log.stream id)
  present : k.missing = false

theorem Loading.keep {k : LoadKnowledge} (h : Loading id log k w)
    (events : (w'.databases ()).events = (w.databases ()).events) : Loading id log k w' := by
  refine ⟨?_, h.loaded, h.present⟩
  rw [Holds, events]
  exact h.holds

/-- What the outside answers about the database does not make it missing. -/
theorem learn_present [DecidableEq P] [UlidParser] {outside : Outside Unit} {self : Nat}
    (present : outside.Present) {k : LoadKnowledge} {op : CatalogOp Unit} {r : op.Res}
    (served : serve outside self w (.catalog op) = some (r, w')) :
    k.learn (.catalog op : StoreOp P Unit) r = k := by
  have answered : (serveCatalog outside w.databases op).1 = r := by
    cases served
    rfl
  obtain ⟨path, target⟩ := present
  have found : outside.answer outside.existing ≠ .ok none := by
    intro absent
    unfold Outside.answer at absent
    cases failure : outside.failure with
    | some e =>
        rw [failure] at absent
        cases absent
    | none =>
        rw [failure] at absent
        rw [Except.ok.inj absent] at target
        cases target
  cases op with
  | pathExists path' =>
      have there : r = true := answered.symm.trans path
      subst there
      simp [LoadKnowledge.learn]
  | existingTarget =>
      rcases r with e | target
      · rfl
      · cases target with
        | none => exact absurd answered found
        | some target => rfl
  | targetForExistingName name =>
      rcases r with e | target
      · rfl
      · cases target with
        | none => exact absurd answered found
        | some target => rfl
  | _ => rfl

theorem Loading.step [DecidableEq P] [UlidParser] {self : Nat} (k : LoadKnowledge)
    (w : Cluster P Unit) (op : StoreOp P Unit) (r : op.Res) (w' : Cluster P Unit)
    (may : (loadDiscipline id).may k op) (h : Loading id log k w)
    (step : PresentStep self w op r w') : Loading id log ((loadDiscipline id).learn k op r) w' := by
  obtain ⟨outside, present, served⟩ := step
  cases op with
  | tryPublishOnce conn id' options' raws' => cases may
  | loadFromConnection conn id' =>
      obtain rfl := may
      have logged : Logged (w.databases ()).events log := h.holds
      simp only [serve] at served
      split at served
      · cases served
        exact h
      · rw [logged.load] at served
        cases served
        refine ⟨h.holds, ?_, h.present⟩
        intro aggregate learned
        exact (Option.some.inj learned).symm
  | catalog op =>
      have same : (loadDiscipline id).learn k (.catalog op) r = k := learn_present present served
      rw [same]
      exact h.keep ((serve_other (by simp) served).1 ())
  | unreachable message => cases served
  | enumerateAllFromConnection conn => exact h.keep ((serve_other (by simp) served).1 ())
  | enumerateByTypeFromConnection conn type =>
      exact h.keep ((serve_other (by simp) served).1 ())
  | cachedConnection partition => exact h.keep ((serve_other (by simp) served).1 ())
  | cacheConnection partition conn => exact h.keep ((serve_other (by simp) served).1 ())
  | removeConnection partition => exact h.keep ((serve_other (by simp) served).1 ())
  | cachedPartitions => exact h.keep ((serve_other (by simp) served).1 ())
  | sleep backoffMs => exact h.keep ((serve_other (by simp) served).1 ())

/-- `load`, run alone on the database. -/
theorem Holds.load [DecidableEq P] [UlidParser] {self : Nat} (holds : Holds w log)
    {strategy : PartitionStrategy P} {catalog : PartitionCatalog P Unit}
    (finds : FindsExisting catalog) {r : Except Error Aggregate}
    (run : Program.Runs (PresentStep self) w (load strategy catalog id) r w') :
    Holds w' log ∧ StoreStep log (.load id) r log := by
  have obeys : (loadDiscipline id).Obeys
      (fun k r => ∃ inner, loadDone k inner ∧ r = inner.mapError SqliteError.into)
      (Sqlite.load strategy catalog id) {} :=
    (loads_loadAggregate strategy finds {}).bind fun _ r known => ⟨r, known, rfl⟩
  have start : Loading id log {} w := ⟨holds, nofun, rfl⟩
  obtain ⟨k, loading, inner, known, rfl⟩ := obeys.runs Loading.step start run
  cases inner with
  | error e => exact ⟨loading.holds, .loadFailed⟩
  | ok aggregate =>
      rcases known aggregate rfl with loaded | missing
      · obtain rfl := loading.loaded aggregate loaded
        exact ⟨loading.holds, .loaded⟩
      · rw [loading.present] at missing
        cases missing

end Load

/-- A store instance on one existing database, used by one call after the other. -/
def sqliteRuntime [DecidableEq P] [UlidParser] (self : Nat) (strategy : PartitionStrategy P)
    (catalog : PartitionCatalog P Unit) (finds : FindsExisting catalog) : StoreRuntime where
  Op := StoreOp P Unit
  Res := StoreOp.Res
  State := Cluster P Unit
  store := ⟨load strategy catalog, publish strategy catalog⟩
  step := PresentStep self
  Represents := Holds
  refines w log call r w' holds run := by
    cases call with
    | load id => exact ⟨log, holds.load finds run⟩
    | publish id options raws => exact holds.publish run

end WeeEvents.Sqlite
