import WeeEvents.Sqlite.LocalHistory
import WeeEvents.Sqlite.Enumeration

/-!
# Enumerating local files

The store on its files where nothing fails, as a function. What an enumeration
then returns is read off the files: every file is found and decoded, every
database is opened, and the plan of its partition is carried out.
-/
namespace WeeEvents.Sqlite
open Foundation

variable {P : Type}

/-- How a directory is listed: in some order, perhaps with other files. -/
structure Listing where
  names : List LocalPath → List String
  lists : ∀ files, ListsDatabases files (names files)

namespace LocalDisk

/-- What the file system answers where nothing fails. Only files are opened here. -/
def outside (listing : Listing) (s : LocalDisk P) : StoreOp P LocalPath → Outside LocalPath
  | .catalog (.pathExists path) => { pathExists := decide (path ∈ s.files), database := .root }
  | .catalog .readDir => { fileNames := listing.names s.files, database := .root }
  | .catalog (.openEventStoreConnection (.ofPath path)) => { database := path }
  | .catalog (.openEventStoreConnection _) =>
      { failure := some (.configuration "not a local target"), database := .root }
  | _ => { database := .root }

def filesAfter (files : List LocalPath) : StoreOp P LocalPath → List LocalPath
  | .catalog (.openEventStoreConnection (.ofPath path)) => files.insert path
  | _ => files

/-- One operation on local files where nothing fails. -/
def serve [DecidableEq P] [UlidParser] (listing : Listing) (op : StoreOp P LocalPath)
    (s : LocalDisk P) : Option (op.Res × LocalDisk P) :=
  (Sqlite.serve (s.outside listing op) 0 s.cluster op).map fun answer =>
    (answer.1, ⟨answer.2, filesAfter s.files op⟩)

/-- A whole program where nothing fails. -/
abbrev run [DecidableEq P] [UlidParser] {α : Type} (listing : Listing)
    (p : Program (StoreOp P LocalPath) StoreOp.Res α) (s : LocalDisk P) : Option (α × LocalDisk P) :=
  p.eval (fun op s => s.serve listing op) s

end LocalDisk

section Calm

variable [DecidableEq P] [UlidParser] (listing : Listing) {s s' : LocalDisk P}

variable {listing} in
theorem LocalDisk.serve_step {op : StoreOp P LocalPath} {r : op.Res}
    (step : s.serve listing op = some (r, s')) : DiskStep s op r s' := by
  obtain ⟨⟨r', cluster⟩, served, same⟩ := Option.map_eq_some_iff.mp step
  cases same
  refine ⟨⟨_, served⟩, ?_⟩
  cases op with
  | catalog op =>
      obtain ⟨answered, -⟩ := Prod.mk.inj (Option.some.inj served)
      cases op with
      | pathExists path => exact ⟨answered.symm, rfl⟩
      | readDir =>
          subst answered
          exact ⟨listing.lists s.files, rfl⟩
      | openEventStoreConnection target =>
          subst answered
          cases target with
          | ofPath path => exact ⟨rfl, rfl⟩
          | _ => exact .inl rfl
      | _ => rfl
  | _ => rfl

variable {listing} in
theorem LocalDisk.run_runs {α : Type} {p : Program (StoreOp P LocalPath) StoreOp.Res α} {a : α}
    (ran : s.run listing p = some (a, s')) : Program.Runs DiskStep s p a s' :=
  (Program.runs_iff_eval.mpr ran).mono fun _ _ _ _ served => LocalDisk.serve_step served

/-- The rows and the generator are as before. -/
structure Undisturbed (s s' : LocalDisk P) : Prop where
  events : ∀ path, (s'.cluster.databases path).events = (s.cluster.databases path).events
  generators : s'.cluster.generators = s.cluster.generators

omit [DecidableEq P] [UlidParser] in
theorem Undisturbed.trans {s'' : LocalDisk P} (h : Undisturbed s s') (h' : Undisturbed s' s'') :
    Undisturbed s s'' :=
  ⟨fun path => (h'.events path).trans (h.events path), h'.generators.trans h.generators⟩

variable [Base32Nopad] {strategy : LocalPartitionStrategy P LocalPath} {router : Router strategy}
  {ids : AggregateId → Prop} (id : AggregateId)

/-- The database has the name of its partition, or gets it. -/
theorem calm_prepare (sound : Sound router ids s) :
    ∃ s', s.run listing (fromCatalog ((localPartitionCatalog strategy).prepareConnectionForPartition
        (router.route id) (router.file id))) = some (.ok (), s') ∧
      Undisturbed s s' ∧ s'.files = s.files := by
  have prepares : (localPartitionCatalog strategy).prepareConnectionForPartition (router.route id)
      (router.file id) =
        prepareNamedConnection strategy.toPartitionNamingStrategy (router.route id) (router.file id) := rfl
  rw [prepares]
  unfold prepareNamedConnection
  cases named : strategy.partitionName (router.route id) with
  | default => exact ⟨s, rfl, ⟨fun _ => rfl, rfl⟩, rfl⟩
  | named name =>
      have recorded : (s.cluster.databases (router.file id)).logicalName.getD name = name := by
        cases before : (s.cluster.databases (router.file id)).logicalName with
        | none => rfl
        | some old =>
            obtain ⟨id', -, file, named'⟩ := sound.recorded _ old before
            rw [router.names id' id file, named] at named'
            exact (PartitionName.named.inj named').symm
      let database : Database := { s.cluster.databases (router.file id) with logicalName := some name }
      refine ⟨{ s with cluster := { s.cluster with
        databases := Function.update s.cluster.databases (router.file id) database } }, ?_, ⟨?_, rfl⟩, rfl⟩
      · simp [LocalDisk.run, ensurePartitionName, fromCatalog, catalogCall, Program.lift,
          Program.perform, Program.andThen, Program.bind, Program.eval, LocalDisk.serve,
          LocalDisk.outside, LocalDisk.filesAfter, Sqlite.serve, serveCatalog, Outside.answer,
          Except.mapError, Database.insertOrIgnoreLogicalName, recorded, database]
      · intro path
        show (Function.update s.cluster.databases (router.file id) database path).events = _
        rcases eq_or_ne path (router.file id) with rfl | ne
        · rw [Function.update_self]
        · rw [Function.update_of_ne ne]

/-- Opening a file makes it, and caches the connection. -/
theorem calm_openAndCache (sound : Sound router ids s) (inside : ids id) :
    ∃ s', s.run listing (openAndCache (localPartitionCatalog strategy) (router.route id)
        (.ofPath (router.file id))) = some (.ok (router.file id), s') ∧
      Undisturbed s s' ∧ s'.files = s.files.insert (router.file id) := by
  let opened : LocalDisk P := { s with files := s.files.insert (router.file id) }
  have opens : s.run listing (fromCatalog (catalogCall (.openEventStoreConnection
      (.ofPath (router.file id)))) : StoreProgram P LocalPath LocalPath) =
        some (.ok (router.file id), opened) := rfl
  have there : Sound router ids opened := sound.addFile inside rfl rfl rfl
  obtain ⟨prepared, evaluated, same, files⟩ := calm_prepare listing id there
  let connections := (router.route id, router.file id) ::
    (prepared.cluster.connections 0).filter (·.1 ≠ router.route id)
  refine ⟨{ prepared with cluster := prepared.cluster.setConnections 0 connections }, ?_,
    ⟨same.events, same.generators⟩, files⟩
  rw [openAndCache, LocalDisk.run, Program.eval_andThen opens, Program.eval_andThen evaluated]
  rfl

variable {listing} in
omit [Base32Nopad] in
theorem LocalDisk.run_call {α : Type} {op : StoreOp P LocalPath} {r : op.Res}
    {f : op.Res → Program (StoreOp P LocalPath) StoreOp.Res α} (answer : s.serve listing op = some (r, s')) :
    s.run listing ((storeCall op).bind f) = s'.run listing (f r) :=
  Program.eval_call answer

omit [Base32Nopad] in
theorem LocalDisk.serve_cached (s : LocalDisk P) (partition : P) :
    s.serve listing (.cachedConnection partition) =
      some (findConnection (s.cluster.connections 0) partition, s) := rfl

/-- The partition of an aggregate is opened, and its file is there afterwards. -/
theorem calm_ensurePartitionOpen (sound : Sound router ids s) (inside : ids id) :
    ∃ s', s.run listing (ensurePartitionOpen (localPartitionCatalog strategy) (router.route id)) =
        some (.ok (router.file id), s') ∧
      Undisturbed s s' ∧ s'.files = s.files.insert (router.file id) := by
  rw [ensurePartitionOpen, LocalDisk.run_call (s.serve_cached listing _)]
  cases cached : findConnection (s.cluster.connections 0) (router.route id) with
  | some conn =>
      obtain ⟨id', -, route, rfl, there⟩ := sound.cached _ _ (mem_of_findConnection cached)
      have file := router.file_of_route route
      refine ⟨s, ?_, ⟨fun _ => rfl, rfl⟩, ?_⟩
      · rw [file]
        rfl
      · rw [← file, List.insert_of_mem there]
  | none =>
      have target : s.run listing (fromCatalog ((localPartitionCatalog strategy).ensureTargetForPartition
          (router.route id)) : StoreProgram P LocalPath DatabaseTarget) =
            some (.ok (.ofPath (router.file id)), s) := by
        simp only [localPartitionCatalog, router.locates]
        rfl
      obtain ⟨s', evaluated, rest⟩ := calm_openAndCache listing id sound inside
      refine ⟨s', ?_, rest⟩
      dsimp only
      rw [LocalDisk.run, Program.eval_andThen target]
      exact evaluated

/-- The partition of an aggregate is opened if its file is there. -/
theorem calm_openPartitionIfExists (sound : Sound router ids s) (inside : ids id) :
    ∃ s', s.run listing (openPartitionIfExists (localPartitionCatalog strategy) (router.route id)) =
        some (.ok (if router.file id ∈ s.files then some (router.file id) else none), s') ∧
      Undisturbed s s' ∧ s'.files = s.files := by
  rw [openPartitionIfExists, LocalDisk.run_call (s.serve_cached listing _)]
  cases cached : findConnection (s.cluster.connections 0) (router.route id) with
  | some conn =>
      obtain ⟨id', -, route, rfl, there⟩ := sound.cached _ _ (mem_of_findConnection cached)
      have file := router.file_of_route route
      rw [file] at there ⊢
      rw [if_pos there]
      exact ⟨s, rfl, ⟨fun _ => rfl, rfl⟩, rfl⟩
  | none =>
      have target : s.run listing (fromCatalog ((localPartitionCatalog strategy).targetForExistingPartition
          (router.route id)) : StoreProgram P LocalPath (Option DatabaseTarget)) =
            some (.ok (if router.file id ∈ s.files then some (.ofPath (router.file id)) else none), s) := by
        simp only [localPartitionCatalog, router.locates]
        show some (Except.ok (if decide (router.file id ∈ s.files) = true then
          some (DatabaseTarget.ofPath (router.file id)) else none), s) = _
        simp only [decide_eq_true_eq]
      dsimp only
      rw [LocalDisk.run, Program.eval_andThen target]
      by_cases there : router.file id ∈ s.files
      · obtain ⟨s', evaluated, same, files⟩ := calm_openAndCache listing id sound inside
        rw [if_pos there, if_pos there]
        refine ⟨s', ?_, same, ?_⟩
        · dsimp only
          rw [Program.eval_andThen evaluated]
          rfl
        · rw [files, List.insert_of_mem there]
      · rw [if_neg there, if_neg there]
        exact ⟨s, rfl, ⟨fun _ => rfl, rfl⟩, rfl⟩

end Calm

/-! ### What is enumerated -/

namespace LocalDisk

/-- What an enumeration finds in a file, if it is there. -/
def contents (s : LocalDisk P) (path : LocalPath) : Option EventsTable :=
  if path ∈ s.files then some (s.cluster.databases path).events else none

end LocalDisk

section Enumeration

variable [DecidableEq P] [UlidParser] [Base32Nopad] (listing : Listing)
  {strategy : LocalPartitionStrategy P LocalPath} {router : Router strategy}
  {ids : AggregateId → Prop} {s s' : LocalDisk P}

omit [DecidableEq P] [UlidParser] [Base32Nopad] in
theorem Undisturbed.contents (same : Undisturbed s s') (files : s'.files = s.files) (path : LocalPath) :
    s'.contents path = s.contents path := by
  rw [LocalDisk.contents, LocalDisk.contents, files, same.events]

omit [DecidableEq P] [UlidParser] [Base32Nopad] in
theorem Undisturbed.hasEvents (same : Undisturbed s s') (id : AggregateId) :
    HasEvents s' id ↔ HasEvents s id := hasEvents_congr same.events

/-- A partition's plan is carried out on its file. -/
theorem calm_enumeratePartition (id : AggregateId) (sound : Sound router ids s) (inside : ids id)
    (plan : PartitionRead) :
    ∃ found s', s.run listing (enumeratePartition (localPartitionCatalog strategy) (router.route id) plan) =
        some (.ok found, s') ∧ Undisturbed s s' ∧ s'.files = s.files ∧ Sound router ids s' ∧
      ∀ listed, listed ∈ found ↔ plan.Lists (s.contents (router.file id)) listed := by
  obtain ⟨s', opened, same, files⟩ := calm_openPartitionIfExists listing id sound inside
  have opens : (localDiscipline router id).Obeys (fun _ _ => True)
      (openPartitionIfExists (localPartitionCatalog strategy) (router.route id)) [] :=
    local_openPartitionIfExists.mono fun _ _ _ => trivial
  have sound' := Handles.runs sound inside opens (LocalDisk.run_runs opened)
  have events := same.events (router.file id)
  cases plan with
  | scanAll =>
      rw [enumeratePartition, LocalDisk.run, Program.eval_andThen opened, LocalDisk.contents]
      by_cases there : router.file id ∈ s.files
      · rw [if_pos there, if_pos there]
        refine ⟨(s'.cluster.databases (router.file id)).events.selectAggregates, s', rfl, same, files,
          sound', fun listed => ?_⟩
        rw [events]
        simp [PartitionRead.Lists]
      · rw [if_neg there, if_neg there]
        refine ⟨[], s', rfl, same, files, sound', fun listed => ?_⟩
        simp [PartitionRead.Lists]
  | scanType type =>
      rw [enumeratePartition, LocalDisk.run, Program.eval_andThen opened, LocalDisk.contents]
      by_cases there : router.file id ∈ s.files
      · rw [if_pos there, if_pos there]
        refine ⟨((s'.cluster.databases (router.file id)).events.selectKeys type).map (AggregateId.mk type),
          s', rfl, same, files, sound', fun listed => ?_⟩
        rw [events]
        simp [PartitionRead.Lists]
      · rw [if_neg there, if_neg there]
        refine ⟨[], s', rfl, same, files, sound', fun listed => ?_⟩
        simp [PartitionRead.Lists]
  | direct only =>
      refine ⟨[only], s, rfl, ⟨fun _ => rfl, rfl⟩, rfl, sound, fun listed => ?_⟩
      simp [PartitionRead.Lists]
  | skip =>
      refine ⟨[], s, rfl, ⟨fun _ => rfl, rfl⟩, rfl, sound, fun listed => ?_⟩
      simp [PartitionRead.Lists]

theorem calm_enumeratePartitions (plan : P → PartitionRead) {partitions : List P}
    (sound : Sound router ids s)
    (routed : ∀ partition ∈ partitions, ∃ id, ids id ∧ router.route id = partition) :
    ∃ found s', s.run listing (enumeratePartitions (localPartitionCatalog strategy) plan partitions) =
        some (.ok found, s') ∧ Undisturbed s s' ∧ s'.files = s.files ∧ Sound router ids s' ∧
      ∀ listed, listed ∈ found ↔ ∃ id, ids id ∧ router.route id ∈ partitions ∧
        (plan (router.route id)).Lists (s.contents (router.file id)) listed := by
  induction partitions generalizing s with
  | nil =>
      refine ⟨[], s, rfl, ⟨fun _ => rfl, rfl⟩, rfl, sound, fun listed => ?_⟩
      simp
  | cons partition rest ih =>
      obtain ⟨id, inside, rfl⟩ := routed partition List.mem_cons_self
      obtain ⟨here, s₁, first, same₁, files₁, sound₁, listed₁⟩ :=
        calm_enumeratePartition listing id sound inside (plan (router.route id))
      obtain ⟨there, s₂, later, same₂, files₂, sound₂, listed₂⟩ :=
        ih sound₁ fun partition member => routed partition (List.mem_cons_of_mem _ member)
      refine ⟨here ++ there, s₂, ?_, same₁.trans same₂, files₂.trans files₁, sound₂, fun listed => ?_⟩
      · rw [enumeratePartitions, LocalDisk.run, Program.eval_andThen first, Program.eval_andThen later]
        rfl
      · rw [List.mem_append, listed₁, listed₂]
        simp only [same₁.contents files₁, List.mem_cons]
        constructor
        · rintro (byThis | ⟨id', inside', member, byLater⟩)
          · exact ⟨id, inside, .inl rfl, byThis⟩
          · exact ⟨id', inside', .inr member, byLater⟩
        · rintro ⟨id', inside', same | member, lists⟩
          · rw [same, router.file_of_route same] at lists
            exact .inl lists
          · exact .inr ⟨id', inside', member, lists⟩

end Enumeration

/-! ### Which partitions are known -/

section Known

variable [Base32Nopad] {strategy : LocalPartitionStrategy P LocalPath}

/-- Files that each restore a partition are all discovered. -/
theorem discoverNamed_ok {fileNames : List String}
    (restores : ∀ fileName ∈ fileNames, (splitExtension fileName).2 = some "db" →
      ∃ partition, discoverNamed strategy [fileName] = .ok [partition]) :
    ∃ partitions, discoverNamed strategy fileNames = .ok partitions := by
  induction fileNames with
  | nil => exact ⟨[], rfl⟩
  | cons fileName rest ih =>
      obtain ⟨partitions, later⟩ := ih fun other member => restores other (List.mem_cons_of_mem _ member)
      have first := restores fileName List.mem_cons_self
      simp only [discoverNamed] at first ⊢
      split
      · next stem isFile =>
          rw [isFile] at first
          obtain ⟨partition, found⟩ := first rfl
          cases decoded : decodePathComponent stem with
          | error e =>
              simp only [decoded] at found
              cases found
          | ok name =>
              simp only [decoded] at found
              cases restored : strategy.partitionFromName name with
              | error e =>
                  simp only [restored] at found
                  cases found
              | ok partition => exact ⟨partition :: partitions, by simp only [later, restored]⟩
      · exact ⟨partitions, later⟩

/-- Another file is passed over. -/
theorem discoverNamed_other {fileName : String} (other : (splitExtension fileName).2 ≠ some "db") :
    discoverNamed strategy [fileName] = .ok [] := by
  rw [discoverNamed]
  split
  · next stem isFile =>
      rw [isFile] at other
      exact absurd rfl other
  · rfl

/-- How the partitions of `ids` become known: all from the start, or each from its own file. -/
inductive Discovers (router : Router strategy) (ids : AggregateId → Prop) : Prop
  | bootstrapped : strategy.localPartitionLayout = .singleDatabase →
      (∀ id, router.route id ∈ strategy.bootstrapPartitions) → Discovers router ids
  | restored (name : AggregateId → String) : strategy.localPartitionLayout = .namedDatabases →
      (∀ id, router.file id = .inRoot (databaseFile (name id))) →
      (∀ id, ids id → strategy.partitionFromName (name id) = .ok (router.route id)) →
      Discovers router ids

variable [LinearOrder P] [UlidParser] (listing : Listing) {router : Router strategy}
  {ids : AggregateId → Prop} {s : LocalDisk P}

/-- The partitions that are listed, as one operation. -/
theorem calm_partitions (sound : Sound router ids s) (discovers : Discovers router ids)
    (bootstraps : Bootstraps router ids) :
    ∃ partitions, s.run listing (fromCatalog (localPartitionCatalog strategy).partitions) =
        some (.ok partitions, s) ∧
      ∀ partition, partition ∈ partitions ↔ ∃ id, ids id ∧ router.route id = partition ∧
        (strategy.localPartitionLayout = .singleDatabase ∨ router.file id ∈ s.files) := by
  cases discovers with
  | bootstrapped layout all =>
      refine ⟨strategy.bootstrapPartitions, ?_, fun partition => ⟨fun member => ?_, ?_⟩⟩
      · simp only [localPartitionCatalog, discoverPartitions, layout]
        rfl
      · obtain ⟨id, inside, same⟩ := bootstraps partition member
        exact ⟨id, inside, same, .inl layout⟩
      · rintro ⟨id, -, rfl, -⟩
        exact all id
  | restored name layout files restores =>
      have lists := listing.lists s.files
      have isFile : ∀ fileName ∈ listing.names s.files, (splitExtension fileName).2 = some "db" →
          ∃ id, ids id ∧ router.file id ∈ s.files ∧ fileName = databaseFile (name id) := by
        intro fileName member extension
        have there := (lists fileName extension).mp member
        obtain ⟨id, inside, file⟩ := sound.files _ there
        rw [← file] at there
        rw [files] at file
        exact ⟨id, inside, there, (LocalPath.inRoot.inj file).symm⟩
      have each : ∀ fileName ∈ listing.names s.files, (splitExtension fileName).2 = some "db" →
          ∃ partition, discoverNamed strategy [fileName] = .ok [partition] := by
        intro fileName member extension
        obtain ⟨id, inside, -, rfl⟩ := isFile fileName member extension
        exact ⟨router.route id, discoverNamed_databaseFile (restores id inside)⟩
      obtain ⟨partitions, discovered⟩ := discoverNamed_ok each
      refine ⟨partitions, ?_, fun partition => ?_⟩
      · simp only [localPartitionCatalog, discoverPartitions, layout]
        show some ((discoverNamed strategy (listing.names s.files)).mapError SqliteError.backend, s) = _
        rw [discovered]
        rfl
      · rw [mem_discoverNamed discovered]
        constructor
        · rintro ⟨fileName, member, here, found, inHere⟩
          by_cases extension : (splitExtension fileName).2 = some "db"
          · obtain ⟨id, inside, there, rfl⟩ := isFile fileName member extension
            rw [discoverNamed_databaseFile (restores id inside)] at found
            cases found
            exact ⟨id, inside, (List.mem_singleton.mp inHere).symm, .inr there⟩
          · rw [discoverNamed_other extension] at found
            cases found
            cases inHere
        · rintro ⟨id, inside, rfl, single | there⟩
          · rw [layout] at single
            cases single
          · have extension : (splitExtension (databaseFile (name id))).2 = some "db" := by
              rw [splitExtension_databaseFile]
            rw [files] at there
            exact ⟨_, (lists _ extension).mpr there, [router.route id],
              discoverNamed_databaseFile (restores id inside), List.mem_cons_self⟩

/-- The known partitions are those of the files, with all there is from the start. -/
theorem calm_allKnownPartitions (sound : Sound router ids s) (discovers : Discovers router ids)
    (bootstraps : Bootstraps router ids) :
    ∃ partitions, s.run listing (allKnownPartitions (localPartitionCatalog strategy)) =
        some (.ok partitions, s) ∧
      ∀ partition, partition ∈ partitions ↔ ∃ id, ids id ∧ router.route id = partition ∧
        (strategy.localPartitionLayout = .singleDatabase ∨ router.file id ∈ s.files) := by
  obtain ⟨partitions, run, listed⟩ := calm_partitions listing sound discovers bootstraps
  refine ⟨sortedSet (partitions ++ (s.cluster.connections 0).map Prod.fst), ?_, fun partition => ?_⟩
  · rw [allKnownPartitions, LocalDisk.run, Program.eval_andThen run]
    rfl
  · rw [mem_sortedSet, List.mem_append, listed]
    constructor
    · rintro (known | cached)
      · exact known
      · obtain ⟨⟨partition, conn⟩, entry, rfl⟩ := List.mem_map.mp cached
        obtain ⟨id, inside, route, file, there⟩ := sound.cached partition conn entry
        rw [← file] at there
        exact ⟨id, inside, route, .inr there⟩
    · exact .inl

/-- What a whole enumeration returns, where nothing fails. -/
theorem calm_enumerateAggregates (sound : Sound router ids s) (discovers : Discovers router ids)
    (bootstraps : Bootstraps router ids) :
    ∃ found s', s.run listing (enumerateAggregates strategy.toPartitionStrategy
        (localPartitionCatalog strategy)) = some (.ok found, s') ∧
      Undisturbed s s' ∧ s'.files = s.files ∧ Sound router ids s' ∧ Increasing sortKey found ∧
      ∀ listed, listed ∈ found ↔ ∃ id, ids id ∧
        (strategy.localPartitionLayout = .singleDatabase ∨ router.file id ∈ s.files) ∧
        (strategy.readPlan (router.route id)).Lists (s.contents (router.file id)) listed := by
  obtain ⟨partitions, known, isKnown⟩ := calm_allKnownPartitions listing sound discovers bootstraps
  have routed : ∀ partition ∈ partitions, ∃ id, ids id ∧ router.route id = partition := by
    intro partition member
    obtain ⟨id, inside, route, -⟩ := (isKnown partition).mp member
    exact ⟨id, inside, route⟩
  obtain ⟨found, s', enumerated, same, files, sound', isListed⟩ :=
    calm_enumeratePartitions listing strategy.readPlan sound routed
  refine ⟨sortedUniqueIds found, s', ?_, same, files, sound', increasing_sortedUniqueIds found,
    fun listed => ?_⟩
  · rw [enumerateAggregates, LocalDisk.run, Program.eval_andThen known, Program.eval_andThen enumerated]
    rfl
  · rw [mem_sortedUniqueIds, isListed]
    apply exists_congr
    intro id
    apply and_congr_right
    intro inside
    apply and_congr_left
    intro lists
    rw [isKnown]
    constructor
    · rintro ⟨id', inside', route, single | there⟩
      · exact .inl single
      · rw [router.file_of_route route] at there
        exact .inr there
    · intro isThere
      exact ⟨id, inside, rfl, isThere⟩

end Known
end WeeEvents.Sqlite
