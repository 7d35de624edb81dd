import WeeEvents.Sqlite.PartitionNames
import WeeEvents.Sqlite.LocalNames
import WeeEvents.Store

/-!
# One store on local files

The root of a local catalog as a set of database files, each with the database
behind it. A file appears when it is opened, also by a call that fails later.
What holds of the files, of the cached connections and of the rows is kept by
every operation of a load or a publish, however it is answered.
-/
namespace WeeEvents.Sqlite
open Foundation

/-- The database files that exist, and one store with the databases behind them. -/
structure LocalDisk (P : Type) where
  cluster : Cluster P LocalPath
  files : List LocalPath

/-- The entries of a directory: of those that look like a database, exactly the files in the root. -/
def ListsDatabases (files : List LocalPath) (fileNames : List String) : Prop :=
  ∀ name, (splitExtension name).2 = some "db" → (name ∈ fileNames ↔ .inRoot name ∈ files)

variable {P : Type}

/-- What the file system answers, and which files there are then. -/
def FilesAnswer (files files' : List LocalPath) : (op : StoreOp P LocalPath) → op.Res → Prop
  | .catalog (.pathExists path), pathExists => pathExists = decide (path ∈ files) ∧ files' = files
  | .catalog .readDir, .ok fileNames => ListsDatabases files fileNames ∧ files' = files
  | .catalog (.openEventStoreConnection target), .ok conn =>
      target = .ofPath conn ∧ files' = files.insert conn
  | .catalog (.openEventStoreConnection target), .error _ =>
      files' = files ∨ ∃ path, target = .ofPath path ∧ files' = files.insert path
  | _, _ => files' = files

/-- An operation of the store on its files, however the outside answers it. -/
structure DiskStep [DecidableEq P] [UlidParser] (s : LocalDisk P) (op : StoreOp P LocalPath)
    (r : op.Res) (s' : LocalDisk P) : Prop where
  store : InstanceStep 0 s.cluster op r s'.cluster
  files : FilesAnswer s.files s'.files op r

/-- No files, no rows, no connections. -/
def LocalDisk.fresh (generator : Generator) : LocalDisk P := ⟨.initial fun _ => generator, []⟩

/-- The same files, opened by a new process. -/
def LocalDisk.restarted (s : LocalDisk P) (generator : Generator) : LocalDisk P :=
  ⟨{ s.cluster with connections := fun _ => [], generators := fun _ => generator }, s.files⟩

/-- Where a strategy puts every aggregate: a partition, its file, and one recorded name for a file. -/
structure Router [Base32Nopad] (strategy : LocalPartitionStrategy P LocalPath) where
  route : AggregateId → P
  file : AggregateId → LocalPath
  routes : ∀ id, strategy.partitionForAggregate id = .ok (route id)
  locates : ∀ id, pathForPartition strategy (route id) = .ok (file id)
  names : ∀ id id', file id = file id' →
    strategy.partitionName (route id) = strategy.partitionName (route id')

section Sound

variable [Base32Nopad] {strategy : LocalPartitionStrategy P LocalPath} (router : Router strategy)
  (ids : AggregateId → Prop)

/-- Every file, cached connection, row and recorded name belongs to an aggregate of `ids` that is
put there. -/
structure Sound (s : LocalDisk P) : Prop where
  files : ∀ path ∈ s.files, ∃ id, ids id ∧ router.file id = path
  cached : ∀ partition conn, (partition, conn) ∈ s.cluster.connections 0 →
    ∃ id, ids id ∧ router.route id = partition ∧ router.file id = conn ∧ conn ∈ s.files
  rows : ∀ path, ∀ row ∈ (s.cluster.databases path).events.rows,
    ids row.aggregateId ∧ router.file row.aggregateId = path ∧ path ∈ s.files
  recorded : ∀ path name, (s.cluster.databases path).logicalName = some name →
    ∃ id, ids id ∧ router.file id = path ∧ strategy.partitionName (router.route id) = .named name

variable {router ids} {s s' : LocalDisk P}

theorem Sound.fresh (generator : Generator) : Sound router ids (.fresh generator) := by
  constructor
  · intro path none
    cases none
  · intro partition conn none
    cases none
  · intro path row none
    cases none
  · intro path name none
    cases none

theorem Sound.restarted (sound : Sound router ids s) (generator : Generator) :
    Sound router ids (s.restarted generator) := by
  refine ⟨sound.files, ?_, sound.rows, sound.recorded⟩
  intro partition conn none
  cases none

/-- A step that leaves files, rows, names and connections. -/
theorem Sound.keep (sound : Sound router ids s) (databases : s'.cluster.databases = s.cluster.databases)
    (connections : s'.cluster.connections = s.cluster.connections) (files : s'.files = s.files) :
    Sound router ids s' := by
  constructor
  · rw [files]
    exact sound.files
  · rw [connections, files]
    exact sound.cached
  · rw [databases, files]
    exact sound.rows
  · rw [databases]
    exact sound.recorded

/-- A step that adds the file of an aggregate. -/
theorem Sound.addFile (sound : Sound router ids s) {id : AggregateId} (inside : ids id)
    (databases : s'.cluster.databases = s.cluster.databases)
    (connections : s'.cluster.connections = s.cluster.connections)
    (files : s'.files = s.files.insert (router.file id)) : Sound router ids s' := by
  have more : ∀ path ∈ s.files, path ∈ s'.files := by
    intro path there
    rw [files]
    exact List.mem_insert_of_mem there
  constructor
  · intro path there
    rw [files] at there
    rcases List.mem_insert_iff.mp there with rfl | old
    · exact ⟨id, inside, rfl⟩
    · exact sound.files path old
  · rw [connections]
    intro partition conn entry
    obtain ⟨id, inside, route, file, there⟩ := sound.cached partition conn entry
    exact ⟨id, inside, route, file, more conn there⟩
  · rw [databases]
    intro path row isRow
    obtain ⟨inside, file, there⟩ := sound.rows path row isRow
    exact ⟨inside, file, more path there⟩
  · rw [databases]
    exact sound.recorded

/-! ### What a call may do -/

variable (router)

/-- A call for one aggregate opens that aggregate's file and uses the connections it was given. The
knowledge is the list of those connections. -/
def localMay (id : AggregateId) (handles : List LocalPath) : StoreOp P LocalPath → Prop
  | .catalog (.openEventStoreConnection target) => target = .ofPath (router.file id)
  | .catalog (.insertOrIgnoreLogicalName conn name) =>
      conn ∈ handles ∧ strategy.partitionName (router.route id) = .named name
  | .cachedConnection partition => partition = router.route id
  | .cacheConnection partition conn => partition = router.route id ∧ conn ∈ handles
  | .tryPublishOnce conn id' _ _ => conn ∈ handles ∧ id' = id
  | .loadFromConnection conn id' => conn ∈ handles ∧ id' = id
  | _ => True

def localLearn (handles : List LocalPath) : (op : StoreOp P LocalPath) → op.Res → List LocalPath
  | .catalog (.openEventStoreConnection _), .ok conn => conn :: handles
  | .cachedConnection _, some conn => conn :: handles
  | _, _ => handles

def localDiscipline (id : AggregateId) :
    Discipline (StoreOp P LocalPath) StoreOp.Res (List LocalPath) where
  may := localMay router id
  learn := localLearn

variable (ids) in
/-- The connections of a call are to the file of its aggregate, and that file exists. -/
structure Handles (id : AggregateId) (handles : List LocalPath) (s : LocalDisk P) : Prop where
  sound : Sound router ids s
  opened : ∀ conn ∈ handles, conn = router.file id ∧ conn ∈ s.files

variable {router} {id : AggregateId} {handles : List LocalPath}

theorem Handles.keep (h : Handles router ids id handles s)
    (databases : s'.cluster.databases = s.cluster.databases)
    (connections : s'.cluster.connections = s.cluster.connections) (files : s'.files = s.files) :
    Handles router ids id handles s' := by
  refine ⟨h.sound.keep databases connections files, ?_⟩
  rw [files]
  exact h.opened

theorem Handles.addFile (h : Handles router ids id handles s) (inside : ids id)
    (databases : s'.cluster.databases = s.cluster.databases)
    (connections : s'.cluster.connections = s.cluster.connections)
    (files : s'.files = s.files.insert (router.file id)) : Handles router ids id handles s' := by
  refine ⟨h.sound.addFile inside databases connections files, ?_⟩
  intro conn member
  rw [files]
  exact (h.opened conn member).imp_right List.mem_insert_of_mem

/-- A connection the call is given. -/
theorem Handles.learn (h : Handles router ids id handles s) {conn : LocalPath}
    (file : conn = router.file id) (there : conn ∈ s.files) :
    Handles router ids id (conn :: handles) s := by
  refine ⟨h.sound, ?_⟩
  intro other member
  rcases List.mem_cons.mp member with rfl | old
  · exact ⟨file, there⟩
  · exact h.opened other old

variable [DecidableEq P] [UlidParser]

/-- Whatever is answered, what a call may do to the catalog keeps everything in its place. -/
theorem Handles.catalog (h : Handles router ids id handles s) (inside : ids id)
    {op : CatalogOp LocalPath} {r : op.Res} (may : localMay router id handles (.catalog op))
    (step : DiskStep s (.catalog op) r s') :
    Handles router ids id (localLearn handles (.catalog op : StoreOp P LocalPath) r) s' := by
  obtain ⟨⟨outside, served⟩, files⟩ := step
  obtain ⟨-, cluster⟩ := Prod.mk.inj (Option.some.inj served)
  have databases : s'.cluster.databases = (serveCatalog outside s.cluster.databases op).2 :=
    congrArg Cluster.databases cluster.symm
  have connections : s'.cluster.connections = s.cluster.connections :=
    (congrArg Cluster.connections cluster).symm
  cases op with
  | openEventStoreConnection target =>
      obtain rfl : target = .ofPath (router.file id) := may
      cases r with
      | ok conn =>
          obtain ⟨same, files⟩ := files
          cases same
          have there : router.file id ∈ s'.files := by
            rw [files]
            exact List.mem_insert_self
          exact (h.addFile inside databases connections files).learn rfl there
      | error e =>
          rcases files with unchanged | ⟨path, same, files⟩
          · exact h.keep databases connections unchanged
          · cases same
            exact h.addFile inside databases connections files
  | insertOrIgnoreLogicalName conn name =>
      obtain ⟨given, named⟩ := may
      obtain ⟨rfl, there⟩ := h.opened conn given
      have sameEvents : ∀ path, (s'.cluster.databases path).events = (s.cluster.databases path).events := by
        intro path
        rw [databases]
        exact serveCatalog_events ..
      have files : s'.files = s.files := files
      refine ⟨⟨?_, ?_, ?_, ?_⟩, ?_⟩
      · rw [files]
        exact h.sound.files
      · rw [connections, files]
        exact h.sound.cached
      · intro path
        rw [sameEvents, files]
        exact h.sound.rows path
      · intro path name' recorded
        rw [databases] at recorded
        dsimp only [serveCatalog] at recorded
        split at recorded
        · exact h.sound.recorded path name' recorded
        · by_cases same : path = router.file id
          · subst same
            rw [Function.update_self] at recorded
            simp only [Database.insertOrIgnoreLogicalName, Option.some.injEq] at recorded
            cases before : (s.cluster.databases (router.file id)).logicalName with
            | none =>
                rw [before, Option.getD_none] at recorded
                exact ⟨id, inside, rfl, recorded ▸ named⟩
            | some old =>
                rw [before, Option.getD_some] at recorded
                subst recorded
                exact h.sound.recorded _ _ before
          · rw [Function.update_of_ne same] at recorded
            exact h.sound.recorded path name' recorded
      · rw [files]
        exact h.opened
  | pathExists path => exact h.keep databases connections files.2
  | readDir =>
      cases r with
      | ok fileNames => exact h.keep databases connections files.2
      | error e => exact h.keep databases connections files
  | _ => exact h.keep databases connections files

omit [UlidParser] [DecidableEq P] in
/-- A partition has one file. -/
theorem Router.file_of_route {id' : AggregateId} (same : router.route id' = router.route id) :
    router.file id' = router.file id := by
  have located := router.locates id'
  rw [same, router.locates id] at located
  exact (Except.ok.inj located).symm

omit [UlidParser] in
/-- A connection that is cached for the call's partition is to its file. -/
theorem Handles.cached (h : Handles router ids id handles s) {conn : LocalPath}
    (found : findConnection (s.cluster.connections 0) (router.route id) = some conn) :
    Handles router ids id (conn :: handles) s := by
  obtain ⟨id', -, route, file, there⟩ := h.sound.cached _ _ (mem_of_findConnection found)
  exact h.learn (file.symm.trans (router.file_of_route route)) there

omit [DecidableEq P] [UlidParser] in
/-- The store's own connection cache, with other entries. -/
theorem Handles.setConnections (h : Handles router ids id handles s) {connections : List (P × LocalPath)}
    (cluster : s'.cluster = s.cluster.setConnections 0 connections) (files : s'.files = s.files)
    (entries : ∀ partition conn, (partition, conn) ∈ connections →
      (partition, conn) ∈ s.cluster.connections 0 ∨ partition = router.route id ∧ conn ∈ handles)
    (inside : ids id) : Handles router ids id handles s' := by
  have own : s'.cluster.connections 0 = connections := by
    rw [cluster]
    exact Function.update_self 0 connections s.cluster.connections
  have databases : s'.cluster.databases = s.cluster.databases := by
    rw [cluster]
    rfl
  refine ⟨⟨?_, ?_, ?_, ?_⟩, ?_⟩
  · rw [files]
    exact h.sound.files
  · rw [own, files]
    intro partition conn entry
    rcases entries partition conn entry with old | ⟨rfl, given⟩
    · exact h.sound.cached partition conn old
    · obtain ⟨rfl, there⟩ := h.opened conn given
      exact ⟨id, inside, rfl, rfl, there⟩
  · rw [databases, files]
    exact h.sound.rows
  · rw [databases]
    exact h.sound.recorded
  · rw [files]
    exact h.opened

/-- An attempt adds rows of the call's aggregate to the aggregate's file. -/
theorem Handles.attempt (h : Handles router ids id handles s) (inside : ids id) {conn : LocalPath}
    {options : PublishOptions} {events : List RawEvent} {r : Except PublishAttemptError ChangeSet}
    (given : conn ∈ handles) {outside : Outside LocalPath}
    (served : serve outside 0 s.cluster (.tryPublishOnce conn id options events) =
      some (r, s'.cluster)) (files : s'.files = s.files) : Handles router ids id handles s' := by
  obtain ⟨generator, table, attempted, cluster⟩ := serve_tryPublishOnce served
  obtain ⟨rfl, there⟩ := h.opened conn given
  have added : ∀ row ∈ table.rows, row ∈ (s.cluster.databases (router.file id)).events.rows ∨
      row.aggregateId = id := by
    cases r with
    | error e =>
        rw [tryPublishOnce_error attempted]
        exact fun row old => .inl old
    | ok changeset =>
        obtain ⟨rows, -⟩ := tryPublishOnce_rows attempted
        rw [rows]
        intro row member
        rcases List.mem_append.mp member with old | new
        · exact .inl old
        · obtain ⟨event, -, rfl⟩ := List.mem_map.mp new
          exact .inr (Row.aggregateId_store id event)
  have databases : s'.cluster.databases = Function.update s.cluster.databases (router.file id)
      { s.cluster.databases (router.file id) with events := table } := by
    rw [cluster]
  have connections : s'.cluster.connections = s.cluster.connections := by
    rw [cluster]
  refine ⟨⟨?_, ?_, ?_, ?_⟩, ?_⟩
  · rw [files]
    exact h.sound.files
  · rw [connections, files]
    exact h.sound.cached
  · rw [databases, files]
    intro path row isRow
    by_cases same : path = router.file id
    · subst same
      rw [Function.update_self] at isRow
      rcases added row isRow with old | rfl
      · exact h.sound.rows _ row old
      · exact ⟨inside, rfl, there⟩
    · rw [Function.update_of_ne same] at isRow
      exact h.sound.rows path row isRow
  · rw [databases]
    intro path name recorded
    by_cases same : path = router.file id
    · subst same
      rw [Function.update_self] at recorded
      exact h.sound.recorded _ name recorded
    · rw [Function.update_of_ne same] at recorded
      exact h.sound.recorded path name recorded
  · rw [files]
    exact h.opened

/-- Everything a call may do keeps everything in its place. -/
theorem Handles.step (h : Handles router ids id handles s) (inside : ids id)
    {op : StoreOp P LocalPath} {r : op.Res} (may : localMay router id handles op)
    (step : DiskStep s op r s') : Handles router ids id (localLearn handles op r) s' := by
  cases op with
  | catalog op => exact h.catalog inside may step
  | cachedConnection partition =>
      obtain ⟨⟨outside, served⟩, files⟩ := step
      obtain ⟨found, cluster⟩ := Prod.mk.inj (Option.some.inj served)
      have given : Handles router ids id (localLearn handles (.cachedConnection partition) r) s := by
        obtain rfl : partition = router.route id := may
        cases r with
        | none => exact h
        | some conn => exact h.cached found
      refine given.keep ?_ ?_ files
      · rw [← cluster]
      · rw [← cluster]
  | cacheConnection partition conn =>
      obtain ⟨⟨outside, served⟩, files⟩ := step
      obtain ⟨-, cluster⟩ := Prod.mk.inj (Option.some.inj served)
      obtain ⟨rfl, given⟩ := may
      refine h.setConnections cluster.symm files ?_ inside
      intro partition' conn' entry
      rcases List.mem_cons.mp entry with same | old
      · cases same
        exact .inr ⟨rfl, given⟩
      · exact .inl (List.mem_of_mem_filter old)
  | removeConnection partition =>
      obtain ⟨⟨outside, served⟩, files⟩ := step
      obtain ⟨-, cluster⟩ := Prod.mk.inj (Option.some.inj served)
      refine h.setConnections cluster.symm files ?_ inside
      intro partition' conn' entry
      exact .inl (List.mem_of_mem_filter entry)
  | tryPublishOnce conn id' options events =>
      obtain ⟨⟨outside, served⟩, files⟩ := step
      obtain ⟨given, rfl⟩ := may
      exact h.attempt inside given served files
  | loadFromConnection conn id' =>
      obtain ⟨⟨outside, served⟩, files⟩ := step
      have cluster : s'.cluster = s.cluster := by
        simp only [serve] at served
        split at served
        · exact (Prod.mk.inj (Option.some.inj served)).2.symm
        · exact (Prod.mk.inj (Option.some.inj served)).2.symm
      have kept : Handles router ids id handles s' := by
        refine h.keep ?_ ?_ files
        · rw [cluster]
        · rw [cluster]
      exact kept
  | unreachable message =>
      obtain ⟨⟨outside, served⟩, -⟩ := step
      cases served
  | _ =>
      obtain ⟨⟨outside, served⟩, files⟩ := step
      obtain ⟨-, cluster⟩ := Prod.mk.inj (Option.some.inj served)
      refine h.keep ?_ ?_ files
      · rw [← cluster]
      · rw [← cluster]

end Sound

/-! ### What loads and publishes do -/

section Programs

variable [Base32Nopad] {strategy : LocalPartitionStrategy P LocalPath} {router : Router strategy}
  {id : AggregateId} {handles : List LocalPath} {conn : LocalPath}

/-- Preparing a connection keeps it. -/
theorem local_prepare (given : conn ∈ handles) :
    (localDiscipline router id).Obeys (fun handles _ => conn ∈ handles)
      (fromCatalog ((localPartitionCatalog strategy).prepareConnectionForPartition (router.route id) conn))
      handles := by
  have prepared : (localPartitionCatalog strategy).prepareConnectionForPartition (router.route id) conn =
      prepareNamedConnection strategy.toPartitionNamingStrategy (router.route id) conn := rfl
  rw [prepared]
  unfold prepareNamedConnection
  cases named : strategy.partitionName (router.route id) with
  | default => exact given
  | named name =>
      refine ⟨⟨given, named⟩, fun inserted => ?_⟩
      cases inserted with
      | error e => exact given
      | ok _ =>
          refine ⟨trivial, fun selected => ?_⟩
          match selected with
          | .error e => exact given
          | .ok none => exact given
          | .ok (some recorded) =>
              simp only [Program.bind_ret]
              split
              · exact given
              · exact given

theorem local_openAndCache :
    (localDiscipline router id).Obeys (fun handles r => ∀ conn, r = .ok conn → conn ∈ handles)
      (openAndCache (localPartitionCatalog strategy) (router.route id) (.ofPath (router.file id)))
      handles := by
  have opening : (localDiscipline router id).Obeys (fun handles r => ∀ conn, r = .ok conn → conn ∈ handles)
      (fromCatalog (catalogCall (.openEventStoreConnection (.ofPath (router.file id))))) handles := by
    refine ⟨rfl, fun opened => ?_⟩
    intro conn same
    cases opened with
    | error e => cases same
    | ok conn' =>
        cases same
        exact List.mem_cons_self
  refine opening.andThen (fun handles conn given => ?_) fun handles e _ conn same => by cases same
  refine (local_prepare (given conn rfl)).andThen (fun handles _ given => ?_)
    fun handles e _ conn same => by cases same
  refine ⟨⟨rfl, given⟩, fun _ => ?_⟩
  intro conn' same
  cases same
  exact given

theorem local_ensurePartitionOpen :
    (localDiscipline router id).Obeys (fun handles r => ∀ conn, r = .ok conn → conn ∈ handles)
      (ensurePartitionOpen (localPartitionCatalog strategy) (router.route id)) handles := by
  refine ⟨rfl, fun cached => ?_⟩
  cases cached with
  | some conn =>
      intro conn' same
      cases same
      exact List.mem_cons_self
  | none =>
      have target : (localDiscipline router id).Obeys
          (fun _ r => ∀ target, r = .ok target → target = .ofPath (router.file id))
          (fromCatalog ((localPartitionCatalog strategy).ensureTargetForPartition (router.route id)))
          (localLearn handles (.cachedConnection (router.route id)) none) := by
        simp only [localPartitionCatalog, router.locates]
        refine ⟨trivial, fun created => ?_⟩
        cases created with
        | error e =>
            intro target same
            cases same
        | ok _ =>
            intro target same
            cases same
            rfl
      refine target.andThen (fun handles target located => ?_) fun handles e _ conn same => by cases same
      rw [located target rfl]
      exact local_openAndCache

theorem local_openPartitionIfExists :
    (localDiscipline router id).Obeys (fun handles r => ∀ conn, r = .ok (some conn) → conn ∈ handles)
      (openPartitionIfExists (localPartitionCatalog strategy) (router.route id)) handles := by
  refine ⟨rfl, fun cached => ?_⟩
  cases cached with
  | some conn =>
      intro conn' same
      cases same
      exact List.mem_cons_self
  | none =>
      have target : (localDiscipline router id).Obeys
          (fun _ r => ∀ target, r = .ok (some target) → target = .ofPath (router.file id))
          (fromCatalog ((localPartitionCatalog strategy).targetForExistingPartition (router.route id)))
          (localLearn handles (.cachedConnection (router.route id)) none) := by
        simp only [localPartitionCatalog, router.locates]
        refine ⟨trivial, fun pathExists => ?_⟩
        intro target same
        cases pathExists with
        | false => cases same
        | true =>
            cases same
            rfl
      refine target.andThen (fun handles target located => ?_) fun handles e _ conn same => by cases same
      cases target with
      | none =>
          intro conn same
          cases same
      | some target =>
          rw [located target rfl]
          refine local_openAndCache.andThen (fun handles conn given => ?_)
            fun handles e _ conn same => by cases same
          intro conn' same
          cases same
          exact given conn rfl

theorem local_publishes (conn : LocalPath) {options : PublishOptions} {events : List RawEvent} :
    Publishes (localDiscipline router id) (conn ∈ ·) conn id options events := by
  constructor
  · intro handles given
    exact ⟨⟨given, rfl⟩, fun r => given⟩
  · intro handles given
    exact ⟨⟨given, rfl⟩, fun r => given⟩
  · intro handles backoffMs given
    exact ⟨trivial, fun r => given⟩
  · intro handles message given
    exact trivial

theorem local_publishToAggregate [UlidParser] (options : PublishOptions) (events : List RawEvent) :
    (localDiscipline router id).Obeys (fun _ _ => True)
      (publishToAggregate id options events strategy.toPartitionStrategy (localPartitionCatalog strategy))
      handles := by
  rw [publishToAggregate, partitionFor, router.routes]
  have opens : ∀ handles : List LocalPath, True → (localDiscipline router id).Obeys
      (fun handles r => True ∧ ∀ conn, r = .ok conn → conn ∈ handles)
      (ensurePartitionOpen (localPartitionCatalog strategy) (router.route id)) handles :=
    fun handles _ => local_ensurePartitionOpen.mono fun handles r given => ⟨trivial, given⟩
  exact Publishes.retryUntilReady (fun conn => local_publishes conn) opens (fun _ _ _ => trivial)
    (fun _ _ => ⟨trivial, fun _ => trivial⟩) (fun _ _ _ => ⟨trivial, fun _ => trivial⟩)
    (fun _ _ _ => trivial) _ trivial

theorem local_loadAggregate :
    (localDiscipline router id).Obeys (fun _ _ => True)
      (loadAggregate strategy.toPartitionStrategy (localPartitionCatalog strategy) id) handles := by
  rw [loadAggregate, partitionFor, router.routes]
  refine local_openPartitionIfExists.andThen (fun handles found given => ?_) fun _ _ _ => trivial
  cases found with
  | none => exact trivial
  | some conn => exact ⟨⟨given conn rfl, rfl⟩, fun _ => trivial⟩

end Programs
end WeeEvents.Sqlite
