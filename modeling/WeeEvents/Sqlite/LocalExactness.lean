import WeeEvents.Sqlite.LocalEnumeration

/-!
# Exact enumerations

Where each shipped strategy puts aggregates on local files, and what its plans
make of the files. A plan that reads rows lists the aggregates with events; the
plan of one partition for each aggregate lists its files, empty ones as well.
-/
namespace WeeEvents.Sqlite
open Foundation

section Local

variable {P : Type} [Base32Nopad]

/-! ### Routers -/

def globalRouter : Router (globalStrategy (D := LocalPath)) where
  route _ := ()
  file _ := .root
  routes _ := rfl
  locates _ := rfl
  names _ _ _ := rfl

/-- A partition with a name has the file of that name. -/
def namedRouter {strategy : LocalPartitionStrategy P LocalPath} (route : AggregateId → P)
    (name : AggregateId → String) (layout : strategy.localPartitionLayout = .namedDatabases)
    (routes : ∀ id, strategy.partitionForAggregate id = .ok (route id))
    (named : ∀ id, strategy.partitionName (route id) = .named (name id)) : Router strategy where
  route := route
  file id := .inRoot (databaseFile (name id))
  routes := routes
  locates id := pathForPartition_named layout (named id)
  names id id' same := by
    rw [named, named, databaseFile_injective (LocalPath.inRoot.inj same)]

def typeRouter : Router (typeStrategy (D := LocalPath)) :=
  namedRouter (fun id => typePartition id.aggregateType) (fun id => id.aggregateType.text) rfl
    (fun _ => rfl) fun _ => rfl

def aggregateRouter : Router (aggregateStrategy (D := LocalPath)) :=
  namedRouter aggregatePartition AggregateId.toText rfl (fun _ => rfl) fun _ => rfl

def hashedRouter (buckets : { n : UInt32 // n ≠ 0 }) : Router (hashedStrategy (D := LocalPath) buckets) :=
  namedRouter (fun id => bucketPartition (hashAggregateId id % buckets.val))
    (fun id => bucketName (hashAggregateId id % buckets.val)) rfl (fun _ => rfl) fun _ => rfl

def partitionByRouter (partitioner : AggregateId → String) :
    Router (partitionByStrategy (D := LocalPath) partitioner) :=
  namedRouter (fun id => textPartition (partitioner id)) partitioner rfl (fun _ => rfl) fun _ => rfl

/-! ### Plans -/

section Plans

variable {strategy : LocalPartitionStrategy P LocalPath} (router : Router strategy)
  (ids : AggregateId → Prop)

/-- The partitions of `ids` are found again, and those there are from the start are theirs. -/
structure Found : Prop where
  discovers : Discovers router ids
  bootstraps : Bootstraps router ids

/-- The plans list what the rows of the files say. -/
structure ReadsRows : Prop extends Found router ids where
  only : ∀ id events listed, (strategy.readPlan (router.route id)).Lists events listed →
    PartitionRead.scanAll.Lists events listed
  all : ∀ id events, PartitionRead.scanAll.Lists events id →
    (strategy.readPlan (router.route id)).Lists events id

/-- Each aggregate has its own file, which is listed unread. -/
structure TrustsFiles : Prop extends Found router ids where
  layout : strategy.localPartitionLayout = .namedDatabases
  noneFirst : strategy.bootstrapPartitions = []
  plan : ∀ id, strategy.readPlan (router.route id) = .direct id
  own : ∀ id id', ids id → ids id' → router.file id = router.file id' → id = id'

/-- Every database holds an event. -/
def NoneEmpty (s : LocalDisk P) : Prop :=
  ∀ path ∈ s.files, (s.cluster.databases path).events.rows ≠ []

variable {router ids} [LinearOrder P] [UlidParser] (listing : Listing) {s s' : LocalDisk P}

/-- Plans that read rows list the aggregates with events. -/
theorem ReadsRows.enumerates (reads : ReadsRows router ids) (sound : Sound router ids s) :
    ∃ found s', s.run listing (enumerateAggregates strategy.toPartitionStrategy
        (localPartitionCatalog strategy)) = some (.ok found, s') ∧
      Undisturbed s s' ∧ s'.files = s.files ∧ Sound router ids s' ∧ Increasing sortKey found ∧
      ∀ id, id ∈ found ↔ HasEvents s id := by
  obtain ⟨found, s', run, same, files, sound', increasing, listed⟩ :=
    calm_enumerateAggregates listing sound reads.discovers reads.bootstraps
  refine ⟨found, s', run, same, files, sound', increasing, fun id => ?_⟩
  rw [listed]
  constructor
  · rintro ⟨id', -, -, lists⟩
    obtain ⟨t, contents, member⟩ := reads.only id' _ id lists
    obtain ⟨row, isRow, rfl⟩ := mem_selectAggregates.mp member
    unfold LocalDisk.contents at contents
    split at contents
    · cases contents
      exact ⟨router.file id', row, isRow, rfl⟩
    · cases contents
  · rintro ⟨path, row, isRow, rfl⟩
    obtain ⟨inside, rfl, there⟩ := sound.rows path row isRow
    have scanned : PartitionRead.scanAll.Lists (s.contents (router.file row.aggregateId))
        row.aggregateId := by
      refine ⟨_, if_pos there, ?_⟩
      exact mem_selectAggregates.mpr ⟨row, isRow, rfl⟩
    exact ⟨row.aggregateId, inside, .inr there, reads.all _ _ scanned⟩

/-- Files listed unread are the aggregates of the files. -/
theorem TrustsFiles.enumerates (trusts : TrustsFiles router ids) (sound : Sound router ids s) :
    ∃ found s', s.run listing (enumerateAggregates strategy.toPartitionStrategy
        (localPartitionCatalog strategy)) = some (.ok found, s') ∧
      Undisturbed s s' ∧ s'.files = s.files ∧ Sound router ids s' ∧ Increasing sortKey found ∧
      ∀ id, id ∈ found ↔ ids id ∧ router.file id ∈ s.files := by
  obtain ⟨found, s', run, same, files, sound', increasing, listed⟩ :=
    calm_enumerateAggregates listing sound trusts.discovers trusts.bootstraps
  refine ⟨found, s', run, same, files, sound', increasing, fun id => ?_⟩
  rw [listed]
  constructor
  · rintro ⟨id', inside, single | there, lists⟩
    · rw [trusts.layout] at single
      cases single
    · rw [trusts.plan] at lists
      obtain rfl : id = id' := lists
      exact ⟨inside, there⟩
  · rintro ⟨inside, there⟩
    refine ⟨id, inside, .inr there, ?_⟩
    rw [trusts.plan]
    exact rfl

omit [LinearOrder P] [UlidParser] in
/-- The files are those of the aggregates with events exactly if none is empty. -/
theorem TrustsFiles.noneEmpty_iff (trusts : TrustsFiles router ids) (sound : Sound router ids s) :
    (∀ id, ids id ∧ router.file id ∈ s.files ↔ HasEvents s id) ↔ NoneEmpty s := by
  constructor
  · intro exactly path there
    obtain ⟨id, inside, rfl⟩ := sound.files path there
    obtain ⟨path, row, isRow, rfl⟩ := (exactly id).mp ⟨inside, there⟩
    obtain ⟨-, rfl, -⟩ := sound.rows path row isRow
    exact List.ne_nil_of_mem isRow
  · intro filled id
    constructor
    · rintro ⟨inside, there⟩
      obtain ⟨row, isRow⟩ := List.exists_mem_of_ne_nil _ (filled _ there)
      obtain ⟨inside', file, -⟩ := sound.rows _ row isRow
      exact ⟨router.file id, row, isRow, trusts.own _ _ inside' inside file⟩
    · rintro ⟨path, row, isRow, rfl⟩
      obtain ⟨inside, rfl, there⟩ := sound.rows path row isRow
      exact ⟨inside, there⟩

end Plans

/-! ### The shipped strategies -/

section Shipped

variable (ids : AggregateId → Prop)

/-- The one database is there from the start. -/
theorem readsRows_global (id : AggregateId) (inside : ids id) : ReadsRows globalRouter ids where
  discovers := .bootstrapped rfl fun _ => List.mem_cons_self
  bootstraps _ _ := ⟨id, inside, rfl⟩
  only _ _ _ := fun lists => lists
  all _ _ := fun lists => lists

/-- Partitions whose names restore them are found again from their files. -/
theorem found_named {strategy : LocalPartitionStrategy P LocalPath} {route : AggregateId → P}
    {name : AggregateId → String} (layout : strategy.localPartitionLayout = .namedDatabases)
    (routes : ∀ id, strategy.partitionForAggregate id = .ok (route id))
    (named : ∀ id, strategy.partitionName (route id) = .named (name id))
    (noneFirst : strategy.bootstrapPartitions = [])
    (restores : ∀ id, ids id → strategy.partitionFromName (name id) = .ok (route id)) :
    Found (namedRouter route name layout routes named) ids where
  discovers := .restored name layout (fun _ => rfl) restores
  bootstraps partition first := by
    rw [noneFirst] at first
    cases first

theorem readsRows_type : ReadsRows typeRouter ids where
  toFound := found_named ids rfl (fun _ => rfl) (fun _ => rfl) rfl fun _ _ => rfl
  only _ _ _ lists := (lists_scanType.mp lists).1
  all _ _ scanned := lists_scanType.mpr ⟨scanned, rfl⟩

theorem readsRows_hashed (buckets : { n : UInt32 // n ≠ 0 }) : ReadsRows (hashedRouter buckets) ids where
  toFound := found_named ids rfl (fun _ => rfl) (fun _ => rfl) rfl fun _ _ =>
    partitionFromName_bucketName buckets _
  only _ _ _ := fun lists => lists
  all _ _ := fun lists => lists

theorem readsRows_partitionBy (partitioner : AggregateId → String) :
    ReadsRows (partitionByRouter partitioner) ids where
  toFound := found_named ids rfl (fun _ => rfl) (fun _ => rfl) rfl fun _ _ => rfl
  only _ _ _ := fun lists => lists
  all _ _ := fun lists => lists

/-- Only a well-formed aggregate is read back from the name of its partition. -/
theorem trustsFiles_aggregate (wellFormed : ∀ id, ids id → id.WellFormed) :
    TrustsFiles aggregateRouter ids where
  toFound := found_named ids rfl (fun _ => rfl) (fun _ => rfl) rfl fun id inside => by
    simp only [aggregateStrategy, AggregateId.fromStr_toText (wellFormed id inside)]
  layout := rfl
  noneFirst := rfl
  plan _ := rfl
  own id id' inside inside' same := by
    have text : id.toText = id'.toText := databaseFile_injective (LocalPath.inRoot.inj same)
    have parsed := congrArg AggregateId.fromStr text
    rw [AggregateId.fromStr_toText (wellFormed id inside),
      AggregateId.fromStr_toText (wellFormed id' inside')] at parsed
    exact Except.ok.inj parsed

end Shipped

/-! ### Exactness -/

section Exactness

variable [UlidParser] (listing : Listing)

/-- The enumeration succeeds with these aggregates. -/
def Enumerates [LinearOrder P] (strategy : LocalPartitionStrategy P LocalPath) (s : LocalDisk P)
    (found : List AggregateId) : Prop :=
  ∃ s', s.run listing (enumerateAggregates strategy.toPartitionStrategy
    (localPartitionCatalog strategy)) = some (.ok found, s')

variable {listing} in
theorem Enumerates.unique [LinearOrder P] {strategy : LocalPartitionStrategy P LocalPath}
    {s : LocalDisk P} {found found' : List AggregateId} (h : Enumerates listing strategy s found)
    (h' : Enumerates listing strategy s found') : found = found' := by
  obtain ⟨s₁, run⟩ := h
  obtain ⟨s₂, run'⟩ := h'
  obtain ⟨same, -⟩ := Prod.mk.inj (Option.some.inj (run.symm.trans run'))
  exact Except.ok.inj same

/-- The enumeration succeeds with exactly the aggregates some publish returned events for. -/
def EnumeratesCommitted [LinearOrder P] (strategy : LocalPartitionStrategy P LocalPath)
    (history : LocalHistory) (s : LocalDisk P) : Prop :=
  ∃ found, Enumerates listing strategy s found ∧ ∀ id, id ∈ found ↔ Committed history id

/-- After every run over well-formed aggregates, whatever its calls returned, the enumeration is exact. -/
def AlwaysExact [LinearOrder P] (strategy : LocalPartitionStrategy P LocalPath) : Prop :=
  ∀ history s, LocalRun strategy AggregateId.WellFormed history s →
    EnumeratesCommitted listing strategy history s

/-- After every run over well-formed aggregates it is exact just where the condition holds. -/
def ExactIff [LinearOrder P] (strategy : LocalPartitionStrategy P LocalPath)
    (condition : LocalDisk P → Prop) : Prop :=
  ∀ history s, LocalRun strategy AggregateId.WellFormed history s →
    (EnumeratesCommitted listing strategy history s ↔ condition s)

variable {listing}

theorem ReadsRows.alwaysExact [LinearOrder P] {strategy : LocalPartitionStrategy P LocalPath}
    {router : Router strategy} (reads : ReadsRows router AggregateId.WellFormed) :
    AlwaysExact listing strategy := by
  intro history s run
  obtain ⟨found, s', enumerated, -, -, -, -, listed⟩ :=
    reads.enumerates listing (run.sound reads.bootstraps)
  exact ⟨found, ⟨s', enumerated⟩, fun id => (listed id).trans (run.committed id)⟩

/-- The aggregates of the files are listed, whatever the files hold. -/
theorem TrustsFiles.listed [LinearOrder P] {strategy : LocalPartitionStrategy P LocalPath}
    {router : Router strategy} (trusts : TrustsFiles router AggregateId.WellFormed)
    {history : LocalHistory} {s : LocalDisk P}
    (run : LocalRun strategy AggregateId.WellFormed history s) :
    ∃ found, Enumerates listing strategy s found ∧
      ∀ id, id ∈ found ↔ id.WellFormed ∧ router.file id ∈ s.files := by
  obtain ⟨found, s', enumerated, -, -, -, -, listed⟩ :=
    trusts.enumerates listing (run.sound trusts.bootstraps)
  exact ⟨found, ⟨s', enumerated⟩, listed⟩

theorem TrustsFiles.exact_iff [LinearOrder P] {strategy : LocalPartitionStrategy P LocalPath}
    {router : Router strategy} (trusts : TrustsFiles router AggregateId.WellFormed) :
    ExactIff listing strategy NoneEmpty := by
  intro history s run
  obtain ⟨found, enumerated, listed⟩ := trusts.listed run
  rw [← trusts.noneEmpty_iff (run.sound trusts.bootstraps)]
  constructor
  · rintro ⟨found', again, committed⟩ id
    obtain rfl := enumerated.unique again
    rw [← listed, committed, run.committed]
  · intro exactly
    exact ⟨found, enumerated, fun id => (listed id).trans ((exactly id).trans (run.committed id))⟩

/-- The enumeration is exact after every run, except that one file for each aggregate is trusted:
there it is exact as long as no file is empty. -/
theorem enumeration_exact_iff (listing : Listing) :
    AlwaysExact listing globalStrategy ∧ AlwaysExact listing typeStrategy ∧
      (∀ buckets, AlwaysExact listing (hashedStrategy buckets)) ∧
      (∀ partitioner, AlwaysExact listing (partitionByStrategy partitioner)) ∧
      ExactIff listing aggregateStrategy NoneEmpty := by
  refine ⟨?_, ?_, fun buckets => ?_, fun partitioner => ?_, ?_⟩
  · have wellFormed : AggregateId.WellFormed ⟨⟨"order"⟩, "1"⟩ := by decide
    exact (readsRows_global _ _ wellFormed).alwaysExact
  · exact (readsRows_type _).alwaysExact
  · exact (readsRows_hashed _ buckets).alwaysExact
  · exact (readsRows_partitionBy _ partitioner).alwaysExact
  · exact (trustsFiles_aggregate _ fun _ wellFormed => wellFormed).exact_iff

end Exactness

/-! ### Calls where nothing fails -/

section Calls

/-- Calls one after the other, and their results. -/
def LocalDisk.runCalls [DecidableEq P] [UlidParser] (listing : Listing)
    (strategy : LocalPartitionStrategy P LocalPath) :
    List EventStoreCall → LocalDisk P → Option (List EventStoreResult × LocalDisk P)
  | [], s => some ([], s)
  | call :: calls, s =>
      (s.run listing ((localStore strategy).call call)).bind fun first =>
        (runCalls listing strategy calls first.2).map fun later => (first.1 :: later.1, later.2)

theorem LocalRun.runCalls [DecidableEq P] [UlidParser] {listing : Listing}
    {strategy : LocalPartitionStrategy P LocalPath} {ids : AggregateId → Prop}
    {calls : List EventStoreCall} {results : List EventStoreResult}
    {history : LocalHistory} {s s' : LocalDisk P} (before : LocalRun strategy ids history s)
    (inside : ∀ call ∈ calls, ids call.target)
    (run : s.runCalls listing strategy calls = some (results, s')) :
    LocalRun strategy ids (history ++ calls.zip results) s' := by
  induction calls generalizing history s results with
  | nil =>
      cases run
      rw [List.zip_nil_left, List.append_nil]
      exact before
  | cons call calls ih =>
      obtain ⟨⟨result, s₁⟩, called, rest⟩ := Option.bind_eq_some_iff.mp run
      obtain ⟨⟨more, s₂⟩, later, same⟩ := Option.map_eq_some_iff.mp rest
      cases same
      have first := before.call (inside call List.mem_cons_self) (LocalDisk.run_runs called)
      have all := ih first (fun call member => inside call (List.mem_cons_of_mem _ member)) later
      rw [List.append_assoc] at all
      exact all

/-- Some run makes these calls over aggregates of `ids` and ends so. -/
def SomeRun [LinearOrder P] [UlidParser] (strategy : LocalPartitionStrategy P LocalPath)
    (ids : AggregateId → Prop) (calls : List EventStoreCall)
    (ends : LocalHistory → LocalDisk P → Prop) : Prop :=
  ∃ results s, LocalRun strategy ids (calls.zip results) s ∧ ends (calls.zip results) s

/-- The calls where nothing fails, on an empty root. -/
def calmCalls [LinearOrder P] [UlidParser] (listing : Listing)
    (strategy : LocalPartitionStrategy P LocalPath) (calls : List EventStoreCall) :
    Option (List EventStoreResult × LocalDisk P) :=
  LocalDisk.runCalls listing strategy calls (.fresh (.countingFrom 0))

theorem SomeRun.of_calls [LinearOrder P] [UlidParser] {strategy : LocalPartitionStrategy P LocalPath}
    {ids : AggregateId → Prop} {ends : LocalHistory → LocalDisk P → Prop} {calls : List EventStoreCall} {listing : Listing}
    {results : List EventStoreResult} {s : LocalDisk P} (noneFirst : strategy.bootstrapPartitions = [])
    (inside : ∀ call ∈ calls, ids call.target)
    (ran : calmCalls listing strategy calls = some (results, s))
    (ending : LocalRun strategy ids (calls.zip results) s → ends (calls.zip results) s) :
    SomeRun strategy ids calls ends := by
  have opens : Program.Runs DiskStep (.fresh (.countingFrom 0))
      (bootstrap (localPartitionCatalog strategy) strategy.toPartitionStrategy) (.ok ())
      (.fresh (.countingFrom 0)) := by
    rw [bootstrap, noneFirst]
    exact Program.runs_ret.mpr ⟨rfl, rfl⟩
  have reached := (LocalRun.opened opens).runCalls inside ran
  exact ⟨results, s, reached, ending reached⟩

end Calls
end Local

/-! ### Files without events -/

section EmptyFiles

attribute [local instance] canonicalUlidParser canonicalBase32

/-- The directory holds the databases and nothing else. -/
def databasesOnly : Listing where
  names files := files.filterMap fun
    | .root => none
    | .inRoot name => some name
  lists files name _ := by
    rw [List.mem_filterMap]
    constructor
    · rintro ⟨path, there, same⟩
      cases path with
      | root => cases same
      | inRoot other =>
          cases same
          exact there
    · intro there
      exact ⟨_, there, rfl⟩

def firstOrder : AggregateId := ⟨⟨"order"⟩, "1"⟩
def secondOrder : AggregateId := ⟨⟨"order"⟩, "2"⟩

/-- A publish of nothing, and one that expects events where there are none. -/
def nothingPublished : List EventStoreCall :=
  [.publish firstOrder {} [], .publish secondOrder { expectedRevision := some (.fromUlid 1) }
    [⟨⟨"created"⟩, ⟨.json, []⟩⟩]]

/-- Whether a call with its result recorded events. -/
def recordsEvents : EventStoreCall × EventStoreResult → Bool
  | (.publish _ _ events, .published r) => !events.isEmpty && r.isOk
  | _ => false

theorem committed_of_recorded {history : LocalHistory} {entry : EventStoreCall × EventStoreResult}
    (member : entry ∈ history) (isRecorded : recordsEvents entry = true) :
    Committed history entry.1.target := by
  match entry, member with
  | (.load _, _), _ => cases isRecorded
  | (.publish _ _ _, .loaded _), _ => cases isRecorded
  | (.publish _ _ _, .published (.error _)), _ =>
      simp [recordsEvents, Except.isOk, Except.toBool] at isRecorded
  | (.publish id options events, .published (.ok changeset)), member =>
      have nonempty : events ≠ [] := by
        simpa [recordsEvents, Except.isOk, Except.toBool] using isRecorded
      exact ⟨options, events, changeset, nonempty, member⟩

theorem any_recorded {history : LocalHistory} :
    history.any recordsEvents = true ↔ ∃ id, Committed history id := by
  rw [List.any_eq_true]
  constructor
  · rintro ⟨entry, member, isRecorded⟩
    exact ⟨_, committed_of_recorded member isRecorded⟩
  · rintro ⟨id, options, events, changeset, nonempty, member⟩
    refine ⟨_, member, ?_⟩
    simp [recordsEvents, nonempty, Except.isOk, Except.toBool]

/-- One order gets an event; the other is only loaded, which makes no file. -/
def orderPublished : List EventStoreCall :=
  [.publish firstOrder {} [⟨⟨"created"⟩, ⟨.json, []⟩⟩], .load secondOrder]

theorem published_order_enumerated :
    SomeRun (aggregateStrategy (D := LocalPath)) AggregateId.WellFormed orderPublished fun history s =>
      (∃ id, Committed history id) ∧ EnumeratesCommitted databasesOnly aggregateStrategy history s := by
  have outcome : (calmCalls databasesOnly aggregateStrategy orderPublished).map (fun ran =>
      ((orderPublished.zip ran.1).any recordsEvents,
        decide (∀ path ∈ ran.2.files, (ran.2.cluster.databases path).events.rows ≠ []))) =
          some (true, true) := by
    decide +kernel
  obtain ⟨⟨results, s⟩, ran, seen⟩ := Option.map_eq_some_iff.mp outcome
  obtain ⟨committed, filled⟩ := Prod.mk.inj seen
  have noneEmpty : ∀ path ∈ s.files, (s.cluster.databases path).events.rows ≠ [] :=
    of_decide_eq_true filled
  refine .of_calls rfl (by decide) ran fun reached => ⟨any_recorded.mp committed, ?_⟩
  exact ((enumeration_exact_iff databasesOnly).2.2.2.2 _ s reached).mpr noneEmpty

/-- Nothing was published, and both aggregates are listed. -/
theorem unpublished_orders_listed :
    SomeRun (aggregateStrategy (D := LocalPath)) AggregateId.WellFormed nothingPublished (fun history s =>
      (∀ id, ¬ Committed history id) ∧
        ∃ found, Enumerates databasesOnly aggregateStrategy s found ∧ firstOrder ∈ found ∧
          secondOrder ∈ found) ∧
      ¬ AlwaysExact databasesOnly (aggregateStrategy (D := LocalPath)) := by
  have listed : SomeRun (aggregateStrategy (D := LocalPath)) AggregateId.WellFormed nothingPublished fun history s =>
      (∀ id, ¬ Committed history id) ∧
        ∃ found, Enumerates databasesOnly aggregateStrategy s found ∧ firstOrder ∈ found ∧
          secondOrder ∈ found := by
    have outcome : (calmCalls databasesOnly aggregateStrategy nothingPublished).map (fun ran =>
        ((nothingPublished.zip ran.1).any recordsEvents,
          decide (aggregateRouter.file firstOrder ∈ ran.2.files),
          decide (aggregateRouter.file secondOrder ∈ ran.2.files))) = some (false, true, true) := by
      decide +kernel
    obtain ⟨⟨results, s⟩, ran, seen⟩ := Option.map_eq_some_iff.mp outcome
    obtain ⟨unrecorded, places⟩ := Prod.mk.inj seen
    obtain ⟨first, second⟩ : _ ∧ _ := by simpa using places
    refine .of_calls rfl (by decide) ran fun reached => ⟨fun id committed => ?_, ?_⟩
    · have isRecorded := any_recorded.mpr ⟨id, committed⟩
      exact Bool.false_ne_true (unrecorded.symm.trans isRecorded)
    · have trusts := trustsFiles_aggregate AggregateId.WellFormed fun _ wellFormed => wellFormed
      obtain ⟨found, enumerated, isListed⟩ := trusts.listed reached
      exact ⟨found, enumerated, (isListed firstOrder).mpr ⟨by decide, first⟩,
        (isListed secondOrder).mpr ⟨by decide, second⟩⟩
  refine ⟨listed, fun always => ?_⟩
  obtain ⟨results, s, run, uncommitted, found, enumerated, first, -⟩ := listed
  obtain ⟨found', again, committed⟩ := always _ s run
  obtain rfl := enumerated.unique again
  exact uncommitted firstOrder ((committed firstOrder).mp first)

end EmptyFiles
end WeeEvents.Sqlite
