import WeeEvents.Sqlite.LocalExactness

/-!
# Enumeration after a restart

A store is closed and a new one opened on the same root. It knows partitions only
from the files, so each file name has to be read back as the partition that made
it.
-/
namespace WeeEvents.Sqlite
open Foundation

section Restart

variable {P : Type} [Base32Nopad] {strategy : LocalPartitionStrategy P LocalPath}
  {router : Router strategy} {ids : AggregateId → Prop} {s s' : LocalDisk P} {history : LocalHistory}

/-! ### Opening the root again -/

theorem calm_bootstrap [DecidableEq P] [UlidParser] (listing : Listing) (bootstraps : Bootstraps router ids)
    (sound : Sound router ids s) :
    ∃ s', s.run listing (bootstrap (localPartitionCatalog strategy) strategy.toPartitionStrategy) =
      some (.ok (), s') ∧ Undisturbed s s' ∧ Sound router ids s' := by
  have each : ∀ partitions : List P, (∀ partition ∈ partitions, ∃ id, ids id ∧ router.route id = partition) →
      ∀ s : LocalDisk P, Sound router ids s →
        ∃ s', s.run listing (bootstrapEach (localPartitionCatalog strategy) partitions) =
          some (.ok (), s') ∧ Undisturbed s s' ∧ Sound router ids s' := by
    intro partitions
    induction partitions with
    | nil =>
        intro _ s sound
        exact ⟨s, rfl, ⟨fun _ => rfl, rfl⟩, sound⟩
    | cons partition rest ih =>
        intro routed s sound
        obtain ⟨id, inside, rfl⟩ := routed partition List.mem_cons_self
        have opens : (localDiscipline router id).Obeys (fun _ _ => True)
            (ensurePartitionOpen (localPartitionCatalog strategy) (router.route id)) [] :=
          local_ensurePartitionOpen.mono fun _ _ _ => trivial
        obtain ⟨s₁, opened, same, -⟩ := calm_ensurePartitionOpen listing id sound inside
        have sound₁ := Handles.runs sound inside opens (LocalDisk.run_runs opened)
        obtain ⟨s₂, later, same', sound₂⟩ :=
          ih (fun partition member => routed partition (List.mem_cons_of_mem _ member)) s₁ sound₁
        refine ⟨s₂, ?_, same.trans same', sound₂⟩
        rw [bootstrapEach, LocalDisk.run, Program.eval_andThen opened]
        exact later
  exact each _ bootstraps s sound

/-- A new process opens the files of a store and enumerates. -/
def reopen [LinearOrder P] [UlidParser] (listing : Listing) (strategy : LocalPartitionStrategy P LocalPath)
    (s : LocalDisk P) (generator : Generator) :
    Option (Except SqliteError (List AggregateId) × LocalDisk P) :=
  (s.restarted generator).run listing
    ((bootstrap (localPartitionCatalog strategy) strategy.toPartitionStrategy).andThen fun _ =>
      enumerateAggregates strategy.toPartitionStrategy (localPartitionCatalog strategy))

def Reopens [LinearOrder P] [UlidParser] (listing : Listing) (strategy : LocalPartitionStrategy P LocalPath)
    (s : LocalDisk P) (generator : Generator) (found : List AggregateId) : Prop :=
  ∃ s', reopen listing strategy s generator = some (.ok found, s')

/-- The store enumerates exactly the aggregates with committed events, and a new process on its
files, closed before or after that, enumerates the same. -/
def SurvivesRestart [LinearOrder P] [UlidParser] (strategy : LocalPartitionStrategy P LocalPath)
    (history : LocalHistory) (s : LocalDisk P) : Prop :=
  ∀ (listing listing' : Listing) (generator : Generator), ∃ found s',
    s.run listing (enumerateAggregates strategy.toPartitionStrategy (localPartitionCatalog strategy)) =
      some (.ok found, s') ∧
    Reopens listing' strategy s generator found ∧ Reopens listing' strategy s' generator found ∧
    ∀ id, id ∈ found ↔ Committed history id

/-- After every run of publishes that all recorded events. -/
def AlwaysSurvives [LinearOrder P] [UlidParser] (strategy : LocalPartitionStrategy P LocalPath)
    (ids : AggregateId → Prop) : Prop :=
  ∀ history s, (∀ entry ∈ history, recordsEvents entry) → LocalRun strategy ids history s →
    SurvivesRestart strategy history s

/-! ### Plans that read rows -/

section Reads

variable [LinearOrder P] [UlidParser] (listing : Listing) (generator : Generator)

theorem ReadsRows.reopens (reads : ReadsRows router ids) (sound : Sound router ids s) :
    ∃ found, Reopens listing strategy s generator found ∧ Increasing sortKey found ∧
      ∀ id, id ∈ found ↔ HasEvents s id := by
  obtain ⟨s₁, opened, same, sound₁⟩ :=
    calm_bootstrap listing reads.bootstraps (sound.restarted generator)
  obtain ⟨found, s₂, enumerated, -, -, -, increasing, listed⟩ := reads.enumerates listing sound₁
  refine ⟨found, ⟨s₂, ?_⟩, increasing, fun id => (listed id).trans (same.hasEvents id)⟩
  rw [reopen, LocalDisk.run, Program.eval_andThen opened]
  exact enumerated

theorem ReadsRows.alwaysSurvives (reads : ReadsRows router ids) : AlwaysSurvives strategy ids := by
  intro history s _ run listing listing' generator
  have sound := run.sound reads.bootstraps
  obtain ⟨found, s', enumerated, same, -, sound', increasing, listed⟩ := reads.enumerates listing sound
  obtain ⟨before, reopened, increasing₁, listed₁⟩ := reads.reopens listing' generator sound
  obtain ⟨after, reopened', increasing₂, listed₂⟩ := reads.reopens listing' generator sound'
  obtain rfl : before = found := by
    apply increasing₁.ext increasing
    intro id
    rw [listed₁, listed]
  obtain rfl : after = before := by
    apply increasing₂.ext increasing
    intro id
    rw [listed₂, listed, same.hasEvents]
  exact ⟨after, s', enumerated, reopened, reopened', fun id => (listed id).trans (run.committed id)⟩

end Reads

/-! ### Files listed unread -/

section Trusts

/-- The aggregates that are called. -/
def Targeted (history : LocalHistory) (id : AggregateId) : Prop := ∃ entry ∈ history, entry.1.target = id

variable [LinearOrder P] [UlidParser] (listing : Listing) (generator : Generator)

theorem LocalRun.mono {ids' : AggregateId → Prop} (run : LocalRun strategy ids history s)
    (weaker : ∀ entry ∈ history, ids entry.1.target → ids' entry.1.target) :
    LocalRun strategy ids' history s := by
  induction run with
  | opened opening => exact .opened opening
  | @call history s s' call result _ inside stepped ih =>
      have before := ih fun entry member => weaker entry (List.mem_append_left _ member)
      exact before.call (weaker _ (List.mem_append_right _ List.mem_cons_self) inside) stepped

theorem TrustsFiles.reopens (trusts : TrustsFiles router ids) (sound : Sound router ids s) :
    ∃ found, Reopens listing strategy s generator found ∧ Increasing sortKey found ∧
      ∀ id, id ∈ found ↔ ids id ∧ router.file id ∈ s.files := by
  obtain ⟨found, s₁, enumerated, -, -, -, increasing, listed⟩ :=
    trusts.enumerates listing (sound.restarted generator)
  refine ⟨found, ⟨s₁, ?_⟩, increasing, listed⟩
  have opened : (s.restarted generator).run listing
      (bootstrap (localPartitionCatalog strategy) strategy.toPartitionStrategy) =
        some (.ok (), s.restarted generator) := by
    rw [bootstrap, trusts.noneFirst]
    rfl
  rw [reopen, LocalDisk.run, Program.eval_andThen opened]
  exact enumerated

/-- Every file belongs to an aggregate that is called, so that none is empty. -/
theorem TrustsFiles.survives (trusts : TrustsFiles router fun id => ids id ∧ Targeted history id)
    (published : ∀ entry ∈ history, recordsEvents entry) (run : LocalRun strategy ids history s) :
    SurvivesRestart strategy history s := by
  intro listing listing' generator
  have targeted : LocalRun strategy (fun id => ids id ∧ Targeted history id) history s :=
    run.mono fun entry member inside => ⟨inside, entry, member, rfl⟩
  have sound := targeted.sound trusts.bootstraps
  obtain ⟨found, s', enumerated, -, files, sound', increasing, listed⟩ := trusts.enumerates listing sound
  obtain ⟨before, reopened, increasing₁, listed₁⟩ := trusts.reopens listing' generator sound
  obtain ⟨after, reopened', increasing₂, listed₂⟩ := trusts.reopens listing' generator sound'
  obtain rfl : before = found := by
    apply increasing₁.ext increasing
    intro id
    rw [listed₁, listed]
  obtain rfl : after = before := by
    apply increasing₂.ext increasing
    intro id
    rw [listed₂, listed, files]
  refine ⟨after, s', enumerated, reopened, reopened', fun id => (listed id).trans ?_⟩
  constructor
  · rintro ⟨⟨-, entry, member, rfl⟩, -⟩
    exact committed_of_recorded member (published entry member)
  · rw [← run.committed]
    rintro ⟨path, row, isRow, rfl⟩
    obtain ⟨inside, rfl, there⟩ := sound.rows path row isRow
    exact ⟨inside, there⟩

end Trusts

/-- The enumeration survives a restart for all aggregates, and where each has its own file for the
well-formed ones. -/
theorem enumeration_survives_restart [UlidParser] :
    AlwaysSurvives globalStrategy (fun _ => True) ∧ AlwaysSurvives typeStrategy (fun _ => True) ∧
      (∀ buckets, AlwaysSurvives (hashedStrategy buckets) fun _ => True) ∧
      (∀ partitioner, AlwaysSurvives (partitionByStrategy partitioner) fun _ => True) ∧
      AlwaysSurvives aggregateStrategy AggregateId.WellFormed := by
  refine ⟨?_, ?_, fun buckets => ?_, fun partitioner => ?_, fun history s published run => ?_⟩
  · exact (readsRows_global (fun _ => True) ⟨⟨""⟩, ""⟩ trivial).alwaysSurvives
  · exact (readsRows_type _).alwaysSurvives
  · exact (readsRows_hashed _ buckets).alwaysSurvives
  · exact (readsRows_partitionBy _ partitioner).alwaysSurvives
  · have trusts : TrustsFiles aggregateRouter fun id => id.WellFormed ∧ Targeted history id :=
      trustsFiles_aggregate _ fun id inside => inside.1
    exact trusts.survives published run

end Restart

/-! ### A colon in a type -/

section Colon

attribute [local instance] canonicalUlidParser canonicalBase32

/-- Its partition is named `a:b:c`. -/
def colonType : AggregateId := ⟨⟨"a:b"⟩, "c"⟩

def colonPublished : List EventStoreCall := [.publish colonType {} [⟨⟨"created"⟩, ⟨.json, []⟩⟩]]

/-- The aggregate is read back as another one, with the colon in the key. -/
theorem colon_moves_into_key :
    SomeRun (aggregateStrategy (D := LocalPath)) (fun _ => True) colonPublished (fun history s =>
      (∀ entry ∈ history, recordsEvents entry) ∧ Committed history colonType ∧
        Reopens databasesOnly aggregateStrategy s (.countingFrom 100) [⟨⟨"a"⟩, "b:c"⟩]) ∧
      ¬ AlwaysSurvives (aggregateStrategy (D := LocalPath)) fun _ => True := by
  have moved : SomeRun (aggregateStrategy (D := LocalPath)) (fun _ => True) colonPublished fun history s =>
      (∀ entry ∈ history, recordsEvents entry) ∧ Committed history colonType ∧
        Reopens databasesOnly aggregateStrategy s (.countingFrom 100) [⟨⟨"a"⟩, "b:c"⟩] := by
    have outcome : (calmCalls databasesOnly aggregateStrategy colonPublished).bind (fun ran =>
        (reopen databasesOnly aggregateStrategy ran.2 (.countingFrom 100)).map fun again =>
          ((colonPublished.zip ran.1).all recordsEvents, (colonPublished.zip ran.1).length,
            again.1.toOption)) = some (true, 1, some [⟨⟨"a"⟩, "b:c"⟩]) := by
      decide +kernel
    obtain ⟨⟨results, s⟩, ran, rest⟩ := Option.bind_eq_some_iff.mp outcome
    obtain ⟨⟨listed, s'⟩, again, seen⟩ := Option.map_eq_some_iff.mp rest
    obtain ⟨published, one, restored⟩ : _ ∧ _ ∧ _ := by simpa only [Prod.mk.injEq] using seen
    have all : ∀ entry ∈ colonPublished.zip results, recordsEvents entry = true :=
      List.all_eq_true.mp published
    refine .of_calls rfl (fun _ _ => trivial) ran fun _ => ⟨all, ?_, s', ?_⟩
    · obtain ⟨entry, member⟩ := List.length_pos_iff_exists_mem.mp (by omega : 0 < (colonPublished.zip results).length)
      have target : entry.1 ∈ colonPublished := (List.of_mem_zip member).1
      have committed := committed_of_recorded member (all entry member)
      rw [List.mem_singleton.mp target] at committed
      exact committed
    · cases listed with
      | error e => cases restored
      | ok found =>
          cases restored
          exact again
  refine ⟨moved, fun always => ?_⟩
  obtain ⟨results, s, run, published, committed, s', again⟩ := moved
  obtain ⟨found, s₁, -, ⟨s₂, reopened⟩, -, listed⟩ :=
    always _ s published run databasesOnly databasesOnly (.countingFrom 100)
  obtain ⟨same, -⟩ := Prod.mk.inj (Option.some.inj (again.symm.trans reopened))
  cases same
  have inside := (listed colonType).mpr committed
  exact absurd inside (by decide)

/-- Two orders, each in a file of its own. -/
def ordersPublished : List EventStoreCall :=
  [.publish firstOrder {} [⟨⟨"created"⟩, ⟨.json, []⟩⟩], .publish secondOrder {} [⟨⟨"created"⟩, ⟨.json, []⟩⟩]]

theorem orders_survive_restart :
    SomeRun (aggregateStrategy (D := LocalPath)) AggregateId.WellFormed ordersPublished fun history s =>
      (∃ id, Committed history id) ∧ SurvivesRestart aggregateStrategy history s := by
  have outcome : (calmCalls databasesOnly aggregateStrategy ordersPublished).map (fun ran =>
      ((ordersPublished.zip ran.1).any recordsEvents, (ordersPublished.zip ran.1).all recordsEvents)) =
        some (true, true) := by
    decide +kernel
  obtain ⟨⟨results, s⟩, ran, seen⟩ := Option.map_eq_some_iff.mp outcome
  obtain ⟨committed, published⟩ := Prod.mk.inj seen
  refine .of_calls rfl (by decide) ran fun reached => ⟨any_recorded.mp committed, ?_⟩
  exact enumeration_survives_restart.2.2.2.2 _ s (List.all_eq_true.mp published) reached

end Colon
end WeeEvents.Sqlite
