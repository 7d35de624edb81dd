import WeeEvents.Sqlite.Linearizability
import WeeEvents.Sqlite.LocalExactness

/-!
# Many store instances on one local root

Processes that open the same root directory with the same strategy, each with its
own connections and its own clock, and call their stores at the same time. A call
that stops halfway and a process that starts anew are runs of this system too.
-/
namespace WeeEvents.Sqlite
open Foundation

variable {P : Type}

/-! ### One instance among others -/

section Swap

variable {D : Type} [DecidableEq D] [DecidableEq P] [UlidParser] {outside : Outside D}
  {w w' : Cluster P D} {i : Nat}

/-- The cluster with instance `i` in the place of the first one. -/
def Cluster.seenBy (w : Cluster P D) (i : Nat) : Cluster P D :=
  ⟨w.databases, w.connections ∘ Equiv.swap 0 i, w.generators ∘ Equiv.swap 0 i⟩

omit [UlidParser] [DecidableEq D] [DecidableEq P] in
theorem update_comp_swap {α : Type} (f : Nat → α) (a : α) :
    Function.update f i a ∘ Equiv.swap 0 i = Function.update (f ∘ Equiv.swap 0 i) 0 a := by
  rw [Function.update_comp_equiv, Equiv.symm_swap, Equiv.swap_apply_right]

/-- An operation of instance `i` is one of the first instance where the two trade places. -/
theorem serve_seenBy {op : StoreOp P D} {r : op.Res} (served : serve outside i w op = some (r, w')) :
    serve outside 0 (w.seenBy i) op = some (r, w'.seenBy i) := by
  cases op with
  | catalog op =>
      cases served
      rfl
  | cachedConnection partition =>
      cases served
      simp [serve, Cluster.seenBy]
  | cacheConnection partition conn =>
      cases served
      simp [serve, Cluster.seenBy, Cluster.setConnections, update_comp_swap]
  | removeConnection partition =>
      cases served
      simp [serve, Cluster.seenBy, Cluster.setConnections, update_comp_swap]
  | cachedPartitions =>
      cases served
      simp [serve, Cluster.seenBy]
  | tryPublishOnce conn id options events =>
      obtain ⟨generator, table, once, rfl⟩ := serve_tryPublishOnce served
      simp only [serve, Cluster.seenBy, Function.comp_apply, Equiv.swap_apply_left, once, update_comp_swap]
  | loadFromConnection conn id =>
      simp only [serve] at served ⊢
      split at served
      · cases served
        rfl
      · cases served
        rfl
  | enumerateAllFromConnection conn =>
      cases served
      rfl
  | enumerateByTypeFromConnection conn type =>
      cases served
      rfl
  | sleep backoffMs =>
      cases served
      rfl
  | unreachable message => cases served

end Swap
/-! ### The shared root -/

/-- An operation of instance `i` on the shared files, however the outside answers it. -/
structure SharedDiskStep [DecidableEq P] [UlidParser] (i : Nat) (s : LocalDisk P)
    (op : StoreOp P LocalPath) (r : op.Res) (s' : LocalDisk P) : Prop where
  store : InstanceStep i s.cluster op r s'.cluster
  files : FilesAnswer s.files s'.files op r

/-- An empty root, before any instance works on it. -/
def LocalDisk.shared (generators : Nat → Generator) : LocalDisk P := ⟨.initial generators, []⟩

/-- The shared root as instance `i` sees it. -/
def LocalDisk.seenBy (s : LocalDisk P) (i : Nat) : LocalDisk P := ⟨s.cluster.seenBy i, s.files⟩

/-- A call of a store instance: it opens what it starts with, or is asked to load or publish. -/
inductive InstanceCall where
  | bootstrap
  | store (call : EventStoreCall)

inductive InstanceResult where
  | bootstrapped (r : Except SqliteError Unit)
  | answered (r : EventStoreResult)

def InstanceCall.asks : InstanceCall → Option EventStoreCall
  | .bootstrap => none
  | .store call => some call

def InstanceResult.answers : InstanceResult → Option EventStoreResult
  | .bootstrapped _ => none
  | .answered r => some r

section Root

variable [Base32Nopad] [DecidableEq P] [UlidParser] (strategy : LocalPartitionStrategy P LocalPath)

def InstanceCall.program : InstanceCall → Program (StoreOp P LocalPath) StoreOp.Res InstanceResult
  | .bootstrap => (Sqlite.bootstrap (localPartitionCatalog strategy) strategy.toPartitionStrategy).bind
      fun r => .ret (.bootstrapped r)
  | .store call => ((sqliteStore strategy.toPartitionStrategy (localPartitionCatalog strategy)).call call).bind
      fun r => .ret (.answered r)

/-- Any number of store instances on one local root. -/
abbrev localInstances : System :=
  storeSystem (fun call : Nat × InstanceCall => call.2.program strategy)
    (fun _ call => SharedDiskStep call.1) fun _ _ => True

end Root

section Shared

variable [Base32Nopad] {strategy : LocalPartitionStrategy P LocalPath} {router : Router strategy}
  [DecidableEq P] [UlidParser] {s s' : LocalDisk P} {i : Nat} {id : AggregateId} {handles : List LocalPath}

omit [Base32Nopad] in
theorem SharedDiskStep.seenBy {op : StoreOp P LocalPath} {r : op.Res}
    (step : SharedDiskStep i s op r s') : DiskStep (s.seenBy i) op r (s'.seenBy i) := by
  obtain ⟨⟨outside, served⟩, files⟩ := step
  exact ⟨⟨outside, serve_seenBy served⟩, files⟩

omit [Base32Nopad] [DecidableEq P] [UlidParser] in
/-- No file goes away. -/
theorem FilesAnswer.grows {files files' : List LocalPath} {op : StoreOp P LocalPath} {r : op.Res}
    (answer : FilesAnswer files files' op r) : ∀ path ∈ files, path ∈ files' := by
  intro path there
  have same : files' = files → path ∈ files' := fun same => same ▸ there
  cases op with
  | catalog op =>
      cases op with
      | pathExists path => exact same answer.2
      | readDir =>
          cases r with
          | ok fileNames => exact same answer.2
          | error e => exact same answer
      | openEventStoreConnection target =>
          cases r with
          | ok conn =>
              rw [answer.2]
              exact List.mem_insert_of_mem there
          | error e =>
              rcases answer with unchanged | ⟨path', -, grown⟩
              · exact same unchanged
              · rw [grown]
                exact List.mem_insert_of_mem there
      | _ => exact same answer
  | _ => exact same answer

/-- Every instance finds everything in its place. -/
def SharedSound (router : Router strategy) (s : LocalDisk P) : Prop :=
  ∀ i, Sound router (fun _ => True) (s.seenBy i)

/-- What one instance may do leaves everything in its place for all. -/
theorem SharedSound.step (sound : SharedSound router s)
    (opened : ∀ conn ∈ handles, conn = router.file id ∧ conn ∈ s.files) {op : StoreOp P LocalPath}
    {r : op.Res} (may : localMay router id handles op) (step : SharedDiskStep i s op r s') :
    SharedSound router s' ∧
      ∀ conn ∈ localLearn handles op r, conn = router.file id ∧ conn ∈ s'.files := by
  have mine : Handles router (fun _ => True) id handles (s.seenBy i) := ⟨sound i, opened⟩
  have after := mine.step trivial may step.seenBy
  refine ⟨fun j => ?_, after.opened⟩
  by_cases same : j = i
  · subst same
    exact after.sound
  · refine ⟨after.sound.files, ?_, after.sound.rows, after.sound.recorded⟩
    intro partition conn entry
    obtain ⟨⟨outside, served⟩, files⟩ := step
    have others : ∀ w : Cluster P LocalPath, (w.seenBy j).connections 0 = w.connections j := by
      intro w
      simp [Cluster.seenBy]
    rcases serve_connections served (others s'.cluster ▸ entry) with old | ⟨mine, -⟩
    · obtain ⟨id', inside, route, file, there⟩ := (sound j).cached partition conn ((others s.cluster).symm ▸ old)
      exact ⟨id', inside, route, file, files.grows conn there⟩
    · exact absurd mine same

omit [DecidableEq P] [UlidParser] in
theorem SharedSound.fresh (generators : Nat → Generator) :
    SharedSound router (.shared generators) := by
  intro i
  constructor
  · intro path none
    cases none
  · intro partition conn none
    cases none
  · intro path row none
    cases none
  · intro path name none
    cases none

end Shared

/-! ### What the calls do -/

section Calls

variable [Base32Nopad] {strategy : LocalPartitionStrategy P LocalPath} {router : Router strategy}

/-- A load looks for the file of its aggregate only. -/
def localLookup (router : Router strategy) (id : AggregateId) : CatalogOp LocalPath → Prop
  | .pathExists path => path = router.file id
  | .existingTarget => False
  | .targetForExistingName _ => False
  | _ => True

theorem looksUp_router : LooksUp (localLookup router) strategy.toPartitionStrategy
    (localPartitionCatalog strategy) := by
  refine looksUp_local ?_ (fun _ _ => trivial) (fun _ _ _ => trivial) fun _ _ => trivial
  intro id partition path routed located
  rw [router.routes id] at routed
  obtain rfl := Except.ok.inj routed
  rw [router.locates id] at located
  exact (Except.ok.inj located).symm

variable [UlidParser]

/-- The aggregate in whose place a call works: its own, or the one a store starts with. -/
def InstanceCall.target (first : AggregateId) : InstanceCall → AggregateId
  | .bootstrap => first
  | .store call => call.target

/-- A store starts with the partition of that aggregate, or with none. -/
def StartsWith (router : Router strategy) (first : AggregateId) : Prop :=
  ∀ partition ∈ strategy.bootstrapPartitions, partition = router.route first

omit [UlidParser] in
theorem local_bootstrapEach {first : AggregateId} (partitions : List P)
    (starts : ∀ partition ∈ partitions, partition = router.route first) (handles : List LocalPath) :
    (localDiscipline router first).Obeys (fun _ _ => True)
      (bootstrapEach (localPartitionCatalog strategy) partitions) handles := by
  induction partitions generalizing handles with
  | nil => exact trivial
  | cons partition rest ih =>
      obtain rfl := starts partition List.mem_cons_self
      refine local_ensurePartitionOpen.andThen (fun handles _ _ => ?_) fun _ _ _ => trivial
      exact ih (fun partition member => starts partition (List.mem_cons_of_mem _ member)) handles

/-- What a call opens and uses is the file of the aggregate in whose place it works. -/
theorem local_instanceCall {first : AggregateId} (starts : StartsWith router first) (call : InstanceCall) :
    (localDiscipline router (call.target first)).Obeys (fun _ _ => True) (call.program strategy) [] := by
  cases call with
  | bootstrap => exact (local_bootstrapEach _ starts []).bind fun _ _ _ => trivial
  | store call =>
      cases call with
      | load id =>
          have loads : (localDiscipline router id).Obeys (fun _ _ => True)
              (load strategy.toPartitionStrategy (localPartitionCatalog strategy) id) [] :=
            local_loadAggregate.bind fun _ _ _ => trivial
          have calls : (localDiscipline router id).Obeys (fun _ _ => True)
              ((sqliteStore strategy.toPartitionStrategy (localPartitionCatalog strategy)).call (.load id))
              [] :=
            loads.bind fun _ _ _ => trivial
          exact calls.bind fun _ _ _ => trivial
      | publish id options events =>
          have publishes : (localDiscipline router id).Obeys (fun _ _ => True)
              (publish strategy.toPartitionStrategy (localPartitionCatalog strategy) id options events) [] :=
            (local_publishToAggregate options events).bind fun _ _ _ => trivial
          have calls : (localDiscipline router id).Obeys (fun _ _ => True)
              ((sqliteStore strategy.toPartitionStrategy (localPartitionCatalog strategy)).call
                (.publish id options events)) [] :=
            publishes.bind fun _ _ _ => trivial
          exact calls.bind fun _ _ _ => trivial

/-- What a call of an instance returns is its effect on the store. -/
def InstanceDone (call : InstanceCall) (k : Option EventStoreResult) (result : InstanceResult) : Prop :=
  ∀ asked, call.asks = some asked →
    ∃ answer, result.answers = some answer ∧ EffectDone asked k answer

omit [UlidParser] [Base32Nopad] in
theorem effect_bootstrapEach {D : Type} {looks : AggregateId → CatalogOp D → Prop}
    (catalog : PartitionCatalog P D) (partitions : List P) (k : Option EventStoreResult) :
    (effectsOf looks none).Obeys (fun k' _ => k' = k) (bootstrapEach catalog partitions) k := by
  have opens : Opens (P := P) (D := D) (effectsOf looks none) (· = k) :=
    ⟨fun _ _ same => ⟨nofun, fun _ => same⟩, fun _ _ same => ⟨nofun, fun _ => same⟩,
      fun _ _ _ same => ⟨nofun, fun _ => same⟩⟩
  induction partitions with
  | nil => exact rfl
  | cons partition rest ih =>
      refine (opens.ensurePartitionOpen catalog partition rfl).andThen (fun k' _ known => ?_) fun _ _ known => known.1
      rw [known.1]
      exact ih

theorem effect_instanceCall (call : InstanceCall) :
    (effectsOf (localLookup router) call.asks).Obeys (InstanceDone call) (call.program strategy) none := by
  cases call with
  | bootstrap =>
      refine (effect_bootstrapEach _ _ none).bind fun _ _ _ => ?_
      intro asked none
      cases none
  | store call =>
      refine (effect_call looksUp_router call).bind fun k r done => ?_
      intro asked same
      cases same
      exact ⟨r, rfl, done⟩

end Calls

/-! ### The run -/

section Run

variable [Base32Nopad] [DecidableEq P] [UlidParser] {strategy : LocalPartitionStrategy P LocalPath}

omit [DecidableEq P] [UlidParser] in
/-- The connections a call uses are to the file of its aggregate. -/
theorem atHome_of_localMay {router : Router strategy} {s : LocalDisk P} {id : AggregateId} {handles : List LocalPath}
    (opened : ∀ conn ∈ handles, conn = router.file id ∧ conn ∈ s.files) {op : StoreOp P LocalPath}
    (may : localMay router id handles op) : AtHome router.file op := by
  cases op with
  | tryPublishOnce conn id' options raws =>
      obtain ⟨given, same⟩ : conn ∈ handles ∧ id' = id := may
      rw [same]
      exact (opened conn given).1
  | loadFromConnection conn id' =>
      obtain ⟨given, same⟩ : conn ∈ handles ∧ id' = id := may
      rw [same]
      exact (opened conn given).1
  | _ => exact trivial

/-- A file that a load does not find has no rows. -/
theorem SharedSound.nothing {router : Router strategy} {s s' : LocalDisk P} {i : Nat} {id : AggregateId}
    {op : StoreOp P LocalPath} {r : op.Res} (sound : SharedSound router s)
    (looks : effectMay (localLookup router) (.load id) op) (step : SharedDiskStep i s op r s')
    (missing : findsNothing op r = true) : (s.cluster.databases (router.file id)).events.rowsOf id = [] := by
  cases op with
  | catalog op =>
      cases op with
      | pathExists path =>
          obtain rfl : path = router.file id := looks
          obtain ⟨answer, -⟩ := step.files
          have absent : router.file id ∉ s.files := by
            intro there
            rw [findsNothing, reportsMissing, answer, decide_eq_true there] at missing
            cases missing
          have noRows : (s.cluster.databases (router.file id)).events.rows = [] := by
            rw [List.eq_nil_iff_forall_not_mem]
            intro row member
            exact absent ((sound 0).rows _ row member).2.2
          rw [EventsTable.rowsOf, noRows]
          rfl
      | existingTarget => cases looks
      | targetForExistingName name => cases looks
      | _ => cases missing
  | _ => cases missing

/-- Every call works in its place, with connections to the file of its aggregate. -/
def placesRule (router : Router strategy) {first : AggregateId} (starts : StartsWith router first) :
    Pool.Rule (S := localInstances strategy) (G := Unit)
      ((Discipline.tagged (localDiscipline router)).both
        (Discipline.tagged (effectsOf (localLookup router)))) fun _ _ => True where
  inv _ s _ := SharedSound router s
  holds _ _ call k s _ := k.1.1 = call.2.target first ∧ ∀ conn ∈ k.1.2, conn = router.file k.1.1 ∧ conn ∈ s.files
  start call := ((call.2.target first, []), (call.2.asks, none))
  done call k result := InstanceDone call.2 k.2.2 result
  obeys call := by
    have places := (local_instanceCall starts call.2).tagged (D := localDiscipline router)
    have effect : (effectsOf (localLookup router) call.2.asks).Obeys (InstanceDone call.2)
        (call.2.program strategy) none := effect_instanceCall call.2
    have effects := effect.tagged (D := effectsOf (localLookup router))
    exact (places.both effects).mono fun k result known => known.2.2
  invoke sound _ _ _ := ⟨(), sound, ⟨rfl, nofun⟩, fun _ _ _ _ known => known⟩
  perform {g s trace c call k op r s'} sound _ known may _ step := by
    obtain ⟨sound', opened⟩ := sound.step known.2 may.1 step
    refine ⟨(), sound', ⟨known.1, opened⟩, fun c' call' k' _ other => ⟨other.1, fun conn given => ?_⟩⟩
    obtain ⟨file, there⟩ := other.2 conn given
    exact ⟨file, step.files.grows conn there⟩
  finish sound _ _ _ _ := ⟨(), sound, fun _ _ _ _ known => known⟩

theorem keepsHome_placesRule (router : Router strategy) {first : AggregateId}
    (starts : StartsWith router first) :
    KeepsHome LocalDisk.cluster Prod.fst router.file (fun call => call.2.asks) InstanceResult.answers
      (placesRule router starts) where
  serves stepped := stepped.store
  start _ := rfl
  done ended asking := ended _ asking
  atHome _ known may _ _ := atHome_of_localMay known.2 may
  nothing sound _ _ stepped _ _ looks missing := sound.nothing looks stepped missing

theorem instances_explained (router : Router strategy) {first : AggregateId}
    (starts : StartsWith router first) {generators : Nat → Generator} {p : Pool (localInstances strategy)}
    (reach : Pool.Reachable (LocalDisk.shared generators) p) :
    ∃ order log, ExplainedBy StoreAnswer (fun call => call.2.asks) InstanceResult.answers [] p.trace order
      log ∧ Placed router.file p.shared.cluster.databases log :=
  (keepsHome_placesRule router starts).explained (g := ()) (SharedSound.fresh generators) (fun _ => rfl) reach

/-- However many instances of the store work on one local root, however their calls interleave and
whatever fails, a store that takes one call at a time explains what they return. -/
def Linearizable (strategy : LocalPartitionStrategy P LocalPath) : Prop :=
  ∀ (generators : Nat → Generator) (p : Pool (localInstances strategy)),
    Pool.Reachable (LocalDisk.shared generators) p → ∃ order log,
      ExplainedBy StoreAnswer (fun call => call.2.asks) InstanceResult.answers [] p.trace order log ∧
        ∀ id path, (∃ partition, strategy.partitionForAggregate id = .ok partition ∧
          pathForPartition strategy partition = .ok path) →
            loadFromConnection (p.shared.cluster.databases path).events id =
              .ok (Aggregate.fromEvents id (log.stream id))

theorem linearizable (router : Router strategy) (first : AggregateId) (starts : StartsWith router first) :
    Linearizable strategy := by
  intro generators p reach
  obtain ⟨order, log, explained, placed⟩ := instances_explained router starts reach
  refine ⟨order, log, explained, ?_⟩
  rintro id path ⟨partition, routed, located⟩
  rw [router.routes id] at routed
  obtain rfl := Except.ok.inj routed
  rw [router.locates id] at located
  obtain rfl := Except.ok.inj located
  exact placed.load id

end Run

theorem startsWith_nothing {P : Type} [Base32Nopad] {strategy : LocalPartitionStrategy P LocalPath}
    {router : Router strategy} (noneFirst : strategy.bootstrapPartitions = []) (first : AggregateId) :
    StartsWith router first := by
  intro partition starts
  rw [noneFirst] at starts
  cases starts

/-! ### Instances where nothing fails -/

section Calm

variable {P : Type} [Base32Nopad] [DecidableEq P] [UlidParser] {strategy : LocalPartitionStrategy P LocalPath}
  {listing : Listing} {s s' : LocalDisk P}

/-- One operation of an instance where nothing fails. -/
def LocalDisk.serveAmong (listing : Listing) (i : Nat) (op : StoreOp P LocalPath) (s : LocalDisk P) :
    Option (op.Res × LocalDisk P) :=
  (Sqlite.serve (s.outside listing op) i s.cluster op).map fun answer =>
    (answer.1, ⟨answer.2, filesAfter s.files op⟩)

omit [Base32Nopad] in
theorem LocalDisk.serveAmong_step {i : Nat} {op : StoreOp P LocalPath} {r : op.Res}
    (step : s.serveAmong listing i op = some (r, s')) : SharedDiskStep i s op r s' := by
  obtain ⟨⟨r', cluster⟩, served, same⟩ := Option.map_eq_some_iff.mp step
  cases same
  have seen : (s.seenBy i).serve listing op = some (r', ⟨cluster.seenBy i, filesAfter s.files op⟩) := by
    rw [LocalDisk.serve, Option.map_eq_some_iff]
    exact ⟨_, serve_seenBy served, rfl⟩
  exact ⟨⟨_, served⟩, (LocalDisk.serve_step seen).files⟩

theorem serveAmong_permitted (c : Nat) (call : Nat × InstanceCall) (s : LocalDisk P)
    (op : StoreOp P LocalPath) (r : op.Res) (s' : LocalDisk P)
    (served : s.serveAmong listing call.1 op = some (r, s')) :
    Pool.PermittedStep (S := localInstances strategy) (fun _ _ => True) c call s op r s' :=
  ⟨LocalDisk.serveAmong_step served, trivial⟩

end Calm

/-! ### The shipped strategies -/

/-- Under every shipped strategy the store on local files is linearizable. -/
theorem local_stores_linearizable [UlidParser] [Base32Nopad] :
    Linearizable globalStrategy ∧ Linearizable typeStrategy ∧ Linearizable aggregateStrategy ∧
      (∀ buckets, Linearizable (hashedStrategy buckets)) ∧
      ∀ partitioner, Linearizable (partitionByStrategy partitioner) := by
  refine ⟨?_, ?_, ?_, fun buckets => ?_, fun partitioner => ?_⟩
  · exact linearizable globalRouter ⟨⟨""⟩, ""⟩ fun _ _ => rfl
  · exact linearizable typeRouter _ (startsWith_nothing rfl ⟨⟨""⟩, ""⟩)
  · exact linearizable aggregateRouter _ (startsWith_nothing rfl ⟨⟨""⟩, ""⟩)
  · exact linearizable (hashedRouter buckets) _ (startsWith_nothing rfl ⟨⟨""⟩, ""⟩)
  · exact linearizable (partitionByRouter partitioner) _ (startsWith_nothing rfl ⟨⟨""⟩, ""⟩)

section Example

attribute [local instance] canonicalUlidParser canonicalBase32

/-- An order is created, unless it exists. -/
def createFirst (i : Nat) : Nat × InstanceCall :=
  (i, .store (.publish firstOrder { expectedRevision := some .zero } [⟨⟨"created"⟩, ⟨.json, []⟩⟩]))

/-- Two instances create the same order, each taking one step after the other. -/
def createdTwice : Option (Pool (localInstances (aggregateStrategy (D := LocalPath)))) :=
  Pool.replay (fun _ call op s => s.serveAmong databasesOnly call.1 op)
    ([.begin 0 (createFirst 0), .begin 1 (createFirst 1)] ++
      (List.replicate 8 [Pool.Move.advance 0, .advance 1]).flatten)
    (Pool.initial (LocalDisk.shared fun i => .countingFrom (100 * i)))

/-- Which calls committed, and which conflicted. -/
def settles : Event (StoreOp AggregatePartition LocalPath) StoreOp.Res (Nat × InstanceCall) InstanceResult →
    Option (Nat × Bool)
  | .returned c _ (.answered (.published (.ok _))) => some (c, true)
  | .returned c _ (.answered (.published (.error (.revisionConflict _ _)))) => some (c, false)
  | _ => none

/-- One of them creates it, and a store that takes one call at a time explains both. -/
theorem created_once_linearizable :
    ∃ p : Pool (localInstances (aggregateStrategy (D := LocalPath))),
      Pool.Reachable (LocalDisk.shared fun i => .countingFrom (100 * i)) p ∧
        p.trace.filterMap settles = [(0, true), (1, false)] ∧ ∃ order log,
          ExplainedBy StoreAnswer (fun call => call.2.asks) InstanceResult.answers [] p.trace order log := by
  have seen : createdTwice.map (fun p => p.trace.filterMap settles) = some [(0, true), (1, false)] := by
    decide +kernel
  obtain ⟨p, run, settled⟩ := Option.map_eq_some_iff.mp seen
  have reach : Pool.ReachableBy (S := localInstances aggregateStrategy) (fun _ _ => True)
      (LocalDisk.shared fun i => .countingFrom (100 * i)) p :=
    Pool.ReachableBy.replay (fun _ _ => trivial) serveAmong_permitted
      (fun _ _ _ => ⟨trivial, fun _ => trivial⟩) .start run
  obtain ⟨order, log, explained, -⟩ := local_stores_linearizable.2.2.1 _ p reach
  exact ⟨p, reach, settled, order, log, explained⟩

end Example
end WeeEvents.Sqlite
