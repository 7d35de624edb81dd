import WeeEvents.Sqlite.Cluster
import WeeEvents.Sqlite.Attempts
import WeeEvents.Sqlite.Base32

/-!
# Logical partitions never share a database

Both catalogs with named partitions record the name in the database when they
prepare a connection, and read back which name the database has. Whoever inserts
first decides; whoever reads another name than its own does not get to open it.
-/
namespace WeeEvents.Sqlite
open Foundation

variable {P D : Type}

/-- A store instance on local files or on named targets. -/
inductive NamedCatalog (P D : Type) where
  | localFiles (strategy : LocalPartitionStrategy P D)
  | namedTargets (strategy : PartitionNamingStrategy P D)

namespace NamedCatalog

def naming : NamedCatalog P D → PartitionNamingStrategy P D
  | localFiles strategy => strategy.toPartitionNamingStrategy
  | namedTargets strategy => strategy

def catalog [LinearOrder P] [Base32Nopad] : NamedCatalog P D → PartitionCatalog P D
  | localFiles strategy => localPartitionCatalog strategy
  | namedTargets strategy => namedTargetCatalog strategy

theorem prepares [LinearOrder P] [Base32Nopad] (config : NamedCatalog P D) :
    config.catalog.prepareConnectionForPartition = prepareNamedConnection config.naming := by
  cases config with
  | localFiles strategy => rfl
  | namedTargets strategy => rfl

end NamedCatalog

/-- The database whose events an operation writes or reads, and for which aggregate. -/
def StoreOp.eventsOf : StoreOp P D → Option (D × Option AggregateId)
  | .tryPublishOnce conn id _ _ => some (conn, some id)
  | .loadFromConnection conn id => some (conn, some id)
  | .enumerateAllFromConnection conn => some (conn, none)
  | .enumerateByTypeFromConnection conn _ => some (conn, none)
  | _ => none

/-! ### What a call knows about its connections -/

/-- The partitions a call has opened, and the names it has read. -/
structure OpenKnowledge (P D : Type) where
  opened : List (P × D) := []
  recorded : List (D × String) := []

def OpenKnowledge.learn (k : OpenKnowledge P D) : (op : StoreOp P D) → op.Res → OpenKnowledge P D
  | .cachedConnection partition, some conn => { k with opened := (partition, conn) :: k.opened }
  | .cacheConnection partition conn, _ => { k with opened := (partition, conn) :: k.opened }
  | .catalog (.selectLogicalName conn), .ok (some name) =>
      { k with recorded := (conn, name) :: k.recorded }
  | _, _ => k

/-- The events of a database belong to a partition the call has opened it for. -/
def OpenKnowledge.Uses (strategy : PartitionStrategy P) (k : OpenKnowledge P D) (conn : D)
    (target : Option AggregateId) : Prop :=
  ∃ partition, (partition, conn) ∈ k.opened ∧
    ∀ id, target = some id → strategy.partitionForAggregate id = .ok partition

/-- A connection is cached once its database is known to have the partition's
name, and events are only touched through an opened connection. -/
def openMay (naming : PartitionNamingStrategy P D) (k : OpenKnowledge P D) : StoreOp P D → Prop
  | .cacheConnection partition conn =>
      ∀ name, naming.partitionName partition = .named name → (conn, name) ∈ k.recorded
  | op => ∀ conn target, op.eventsOf = some (conn, target) →
      k.Uses naming.toPartitionStrategy conn target

theorem openMay_uses {naming : PartitionNamingStrategy P D} {k : OpenKnowledge P D} {op : StoreOp P D}
    (may : openMay naming k op) : ∀ conn target, op.eventsOf = some (conn, target) →
      k.Uses naming.toPartitionStrategy conn target := by
  cases op with
  | cacheConnection partition conn => exact nofun
  | _ => exact may

def openDiscipline (naming : PartitionNamingStrategy P D) :
    Discipline (StoreOp P D) StoreOp.Res (OpenKnowledge P D) where
  may := openMay naming
  learn := OpenKnowledge.learn

section Obeys

variable {naming : PartitionNamingStrategy P D} {k : OpenKnowledge P D} {partition : P} {conn : D}

theorem opens_fromCatalog {α : Type} (p : CatalogProgram D α) :
    (openDiscipline (P := P) naming).Obeys (fun _ _ => True) (fromCatalog p) k :=
  (Discipline.allowed_lift (fun _ _ _ _ events => by cases events) p).bind fun _ _ _ => trivial

/-- Preparing a connection succeeds only where the database has the name. -/
theorem opens_prepare (partition : P) (conn : D) :
    (openDiscipline naming).Obeys
      (fun k r => r = .ok () → ∀ name, naming.partitionName partition = .named name →
        (conn, name) ∈ k.recorded)
      (fromCatalog (prepareNamedConnection naming partition conn)) k := by
  unfold prepareNamedConnection
  cases named : naming.partitionName partition with
  | default =>
      intro _ name same
      cases same
  | named name =>
      refine ⟨nofun, fun inserted => ?_⟩
      cases inserted with
      | error e => exact nofun
      | ok _ =>
          refine ⟨nofun, fun selected => ?_⟩
          match selected with
          | .error e => exact nofun
          | .ok none => exact nofun
          | .ok (some recorded) =>
              rcases eq_or_ne recorded name with rfl | different
              · simp only [Program.bind_ret, Program.lift, ne_eq, not_true_eq_false, if_false]
                intro _ other same
                cases same
                exact List.mem_cons_self ..
              · simp only [Program.bind_ret, Program.lift, ne_eq, different, not_false_eq_true, if_true]
                exact nofun

theorem opens_openAndCache {catalog : PartitionCatalog P D}
    (prepares : catalog.prepareConnectionForPartition = prepareNamedConnection naming)
    (partition : P) (target : DatabaseTarget) :
    (openDiscipline naming).Obeys (fun k r => ∀ conn, r = .ok conn → (partition, conn) ∈ k.opened)
      (openAndCache catalog partition target) k := by
  refine (opens_fromCatalog _).andThen (fun k conn _ => ?_) fun _ _ _ => nofun
  rw [prepares]
  refine (opens_prepare partition conn).andThen (fun k _ known => ?_) fun _ _ _ => nofun
  refine ⟨known rfl, fun _ conn' same => ?_⟩
  cases same
  exact List.mem_cons_self ..

theorem opens_ensurePartitionOpen {catalog : PartitionCatalog P D}
    (prepares : catalog.prepareConnectionForPartition = prepareNamedConnection naming)
    (partition : P) :
    (openDiscipline naming).Obeys (fun k r => ∀ conn, r = .ok conn → (partition, conn) ∈ k.opened)
      (ensurePartitionOpen catalog partition) k := by
  refine ⟨nofun, fun cached => ?_⟩
  cases cached with
  | some conn =>
      intro conn' same
      cases same
      exact List.mem_cons_self ..
  | none =>
      exact (opens_fromCatalog _).andThen
        (fun k target _ => opens_openAndCache prepares partition target) fun _ _ _ => nofun

theorem opens_openPartitionIfExists {catalog : PartitionCatalog P D}
    (prepares : catalog.prepareConnectionForPartition = prepareNamedConnection naming)
    (partition : P) :
    (openDiscipline naming).Obeys
      (fun k r => ∀ conn, r = .ok (some conn) → (partition, conn) ∈ k.opened)
      (openPartitionIfExists catalog partition) k := by
  refine ⟨nofun, fun cached => ?_⟩
  cases cached with
  | some conn =>
      intro conn' same
      cases same
      exact List.mem_cons_self ..
  | none =>
      refine (opens_fromCatalog _).andThen (fun k target _ => ?_) fun _ _ _ => nofun
      cases target with
      | none => exact nofun
      | some target =>
          refine (opens_openAndCache prepares partition target).andThen (fun k conn known => ?_)
            fun _ _ _ => nofun
          intro conn' same
          cases same
          exact known conn rfl

/-! ### Publishing through an opened connection -/

section Publish

variable {id : AggregateId} {options : PublishOptions} {events : List RawEvent}

/-- A connection that was opened for an aggregate's partition stays usable for it. -/
theorem opens_publishes (conn : D) :
    Publishes (openDiscipline (P := P) naming) (·.Uses naming.toPartitionStrategy conn (some id)) conn
      id options events := by
  constructor
  · intro k uses
    refine ⟨?_, fun r => uses⟩
    intro conn' target same
    cases same
    exact uses
  · intro k uses
    refine ⟨?_, fun r => by cases r <;> exact uses⟩
    intro conn' target same
    cases same
    exact uses
  · intro k backoffMs uses
    exact ⟨nofun, fun r => uses⟩
  · intro k message uses
    exact nofun

theorem opens_retryUntilReady [UlidParser] {catalog : PartitionCatalog P D}
    (prepares : catalog.prepareConnectionForPartition = prepareNamedConnection naming)
    (routed : naming.partitionForAggregate id = .ok partition) (remaining : Nat) :
    (openDiscipline naming).Obeys (fun _ _ => True)
      (retryUntilReady id options events catalog partition remaining) k := by
  have opens : ∀ k : OpenKnowledge P D, True → (openDiscipline naming).Obeys
      (fun k r => True ∧ ∀ conn, r = .ok conn → k.Uses naming.toPartitionStrategy conn (some id))
      (ensurePartitionOpen catalog partition) k := by
    intro k _
    refine (opens_ensurePartitionOpen prepares partition).mono fun k r known => ⟨trivial, ?_⟩
    intro conn opened
    refine ⟨partition, known conn opened, fun id' same => ?_⟩
    cases same
    exact routed
  exact Publishes.retryUntilReady opens_publishes opens
    (fun _ _ _ => trivial) (fun _ _ => ⟨nofun, fun _ => trivial⟩)
    (fun _ _ _ => ⟨nofun, fun _ => trivial⟩) (fun _ _ _ => nofun) remaining trivial

end Publish

/-! ### Loading and enumerating -/

section Read

variable {catalog : PartitionCatalog P D}
  (prepares : catalog.prepareConnectionForPartition = prepareNamedConnection naming)

include prepares

theorem opens_loadAggregate (id : AggregateId) :
    (openDiscipline naming).Obeys (fun _ _ => True)
      (loadAggregate naming.toPartitionStrategy catalog id) k := by
  rw [loadAggregate, partitionFor]
  cases routed : naming.partitionForAggregate id with
  | error b => exact trivial
  | ok partition =>
      refine (opens_openPartitionIfExists prepares partition).andThen (fun k conn known => ?_)
        fun _ _ _ => trivial
      cases conn with
      | none => exact trivial
      | some conn =>
          refine ⟨fun conn' target same => ?_, fun _ => trivial⟩
          cases same
          refine ⟨partition, known conn rfl, fun id' same => ?_⟩
          cases same
          exact routed

theorem opens_enumeratePartition (partition : P) (plan : PartitionRead) :
    (openDiscipline naming).Obeys (fun _ _ => True) (enumeratePartition catalog partition plan) k := by
  have opened := @opens_openPartitionIfExists P D naming k catalog prepares partition
  cases plan with
  | direct id => exact trivial
  | skip => exact trivial
  | scanAll =>
      refine opened.andThen (fun k conn known => ?_) fun _ _ _ => trivial
      cases conn with
      | none => exact trivial
      | some conn =>
          refine ⟨fun conn' target same => ?_, fun _ => trivial⟩
          cases same
          exact ⟨partition, known conn rfl, nofun⟩
  | scanType type =>
      refine opened.andThen (fun k conn known => ?_) fun _ _ _ => trivial
      cases conn with
      | none => exact trivial
      | some conn =>
          refine ⟨fun conn' target same => ?_, fun _ => trivial⟩
          cases same
          exact ⟨partition, known conn rfl, nofun⟩

theorem opens_enumeratePartitions (plan : P → PartitionRead) (partitions : List P) :
    (openDiscipline naming).Obeys (fun _ _ => True)
      (enumeratePartitions catalog plan partitions) k := by
  induction partitions generalizing k with
  | nil => exact trivial
  | cons partition rest ih =>
      refine (opens_enumeratePartition prepares partition _).andThen (fun k ids _ => ?_)
        fun _ _ _ => trivial
      exact ih.andThen (fun _ _ _ => trivial) fun _ _ _ => trivial

theorem opens_enumerate [LinearOrder P] (plan : P → PartitionRead) :
    (openDiscipline naming).Obeys (fun _ _ => True)
      ((allKnownPartitions catalog).andThen fun partitions =>
        (enumeratePartitions catalog plan partitions).andThen fun ids =>
          .ret (.ok (sortedUniqueIds ids))) k := by
  have known : (openDiscipline naming).Obeys (fun _ _ => True) (allKnownPartitions catalog) k := by
    refine (opens_fromCatalog _).andThen (fun k partitions _ => ?_) fun _ _ _ => trivial
    exact ⟨nofun, fun _ => trivial⟩
  refine known.andThen (fun k partitions _ => ?_) fun _ _ _ => trivial
  refine (opens_enumeratePartitions prepares plan partitions).andThen (fun _ _ _ => trivial)
    fun _ _ _ => trivial

theorem opens_call [LinearOrder P] [UlidParser] (call : StoreCall) :
    (openDiscipline naming).Obeys (fun _ _ => True)
      (call.program naming.toPartitionStrategy catalog) k := by
  cases call with
  | load id =>
      have loads : (openDiscipline naming).Obeys (fun _ _ => True)
          (Sqlite.load naming.toPartitionStrategy catalog id) k :=
        (opens_loadAggregate prepares id).bind fun _ _ _ => trivial
      exact loads.bind fun _ _ _ => trivial
  | publish id options events =>
      have attempts : (openDiscipline naming).Obeys (fun _ _ => True)
          (publishToAggregate id options events naming.toPartitionStrategy catalog) k := by
        rw [publishToAggregate, partitionFor]
        cases routed : naming.partitionForAggregate id with
        | error b => exact trivial
        | ok partition => exact opens_retryUntilReady prepares routed _
      have publishes : (openDiscipline naming).Obeys (fun _ _ => True)
          (Sqlite.publish naming.toPartitionStrategy catalog id options events) k :=
        attempts.bind fun _ _ _ => trivial
      exact publishes.bind fun _ _ _ => trivial
  | enumerateAggregates =>
      exact (opens_enumerate prepares _).bind fun _ _ _ => trivial
  | enumerateAggregatesByType type =>
      exact (opens_enumerate prepares _).bind fun _ _ _ => trivial

end Read
end Obeys

/-! ### The recorded name -/

section Recorded

variable [DecidableEq D] [DecidableEq P] [UlidParser] {outside : Outside D} {self : Nat}
  {w w' : Cluster P D}

/-- No operation changes a name once it is recorded. -/
theorem serve_logicalName {op : StoreOp P D} {r : op.Res} (h : serve outside self w op = some (r, w'))
    {d : D} {name : String} (recorded : (w.databases d).logicalName = some name) :
    (w'.databases d).logicalName = some name := by
  cases op with
  | catalog op =>
      cases h
      cases op with
      | insertOrIgnoreLogicalName conn name' =>
          dsimp only [serveCatalog]
          split
          · exact recorded
          · rcases eq_or_ne d conn with rfl | ne
            · simp [Database.insertOrIgnoreLogicalName, recorded]
            · rw [Function.update_of_ne ne]
              exact recorded
      | _ => exact recorded
  | tryPublishOnce conn id options events =>
      obtain ⟨generator, table, -, rfl⟩ := serve_tryPublishOnce h
      rcases eq_or_ne d conn with rfl | ne
      · simpa using recorded
      · simpa [Function.update_of_ne ne] using recorded
  | loadFromConnection conn id =>
      simp only [serve] at h
      split at h <;> cases h <;> exact recorded
  | unreachable message => cases h
  | _ =>
      cases h
      exact recorded

/-- A name that was read is recorded. -/
theorem serve_selectLogicalName {conn : D} {name : String}
    (h : serve outside self w (.catalog (.selectLogicalName conn)) = some (.ok (some name), w')) :
    (w'.databases conn).logicalName = some name := by
  simp only [serve, serveCatalog, Outside.answer, Option.some.injEq, Prod.mk.injEq] at h
  obtain ⟨read, rfl⟩ := h
  split at read
  · cases read
  · exact Except.ok.inj read

/-- Only caching a connection adds one to a cache, its own. -/
theorem serve_connections {op : StoreOp P D} {r : op.Res} (h : serve outside self w op = some (r, w'))
    {i : Nat} {partition : P} {conn : D} (cached : (partition, conn) ∈ w'.connections i) :
    (partition, conn) ∈ w.connections i ∨ i = self ∧ op = .cacheConnection partition conn := by
  cases op with
  | cacheConnection partition' conn' =>
      cases h
      rcases eq_or_ne i self with rfl | ne
      · simp only [Cluster.setConnections, Function.update_self, List.mem_cons] at cached
        rcases cached with same | old
        · cases same
          exact .inr ⟨rfl, rfl⟩
        · exact .inl (List.mem_of_mem_filter old)
      · simp only [Cluster.setConnections, Function.update_of_ne ne] at cached
        exact .inl cached
  | removeConnection partition' =>
      cases h
      rcases eq_or_ne i self with rfl | ne
      · simp only [Cluster.setConnections, Function.update_self] at cached
        exact .inl (List.mem_of_mem_filter cached)
      · simp only [Cluster.setConnections, Function.update_of_ne ne] at cached
        exact .inl cached
  | loadFromConnection conn id =>
      simp only [serve] at h
      split at h <;> cases h <;> exact .inl cached
  | unreachable message => cases h
  | _ =>
      cases h
      exact .inl cached

end Recorded
theorem mem_of_findConnection [DecidableEq P] {connections : List (P × D)} {partition : P} {conn : D}
    (found : findConnection connections partition = some conn) : (partition, conn) ∈ connections := by
  obtain ⟨⟨partition', conn'⟩, isEntry, rfl⟩ := Option.map_eq_some_iff.mp found
  have same : partition' = partition := by simpa using List.find?_some isEntry
  rw [← same]
  exact List.mem_of_find?_eq_some isEntry

/-! ### The run -/

section Run

/-- Store instances, each on local files or on named targets. -/
abbrev namedCluster [LinearOrder P] [DecidableEq D] [UlidParser] [Base32Nopad]
    (instances : Nat → NamedCatalog P D) : System :=
  cluster (fun i => (instances i).naming.toPartitionStrategy) fun i => (instances i).catalog

abbrev StoreEvent (P D : Type) : Type := Event (StoreOp P D) StoreOp.Res (Nat × StoreCall) StoreResult

/-- Call `c` of instance `i` got a connection to a database for a partition: it
opened the database, or found it in the cache. -/
def Opened (trace : List (StoreEvent P D)) (c i : Nat) (partition : P) (conn : D) : Prop :=
  ∃ call, .performed c (i, call) (.cacheConnection partition conn) () ∈ trace ∨
    .performed c (i, call) (.cachedConnection partition) (some conn) ∈ trace

theorem Opened.mono {trace later : List (StoreEvent P D)} {c i : Nat} {partition : P} {conn : D}
    (h : Opened trace c i partition conn) : Opened (trace ++ later) c i partition conn := by
  obtain ⟨call, opened | found⟩ := h
  · exact ⟨call, .inl (List.mem_append_left _ opened)⟩
  · exact ⟨call, .inr (List.mem_append_left _ found)⟩

variable (instances : Nat → NamedCatalog P D)

/-- The name of a partition, as instance `i` gives it. -/
def Names (i : Nat) (partition : P) (name : String) : Prop :=
  (instances i).naming.partitionName partition = .named name

/-- Whoever has a connection for a named partition has it to a database of that
name, and events are only touched through such a connection. -/
structure Apart (w : Cluster P D) (trace : List (StoreEvent P D)) : Prop where
  cached : ∀ i partition conn name, (partition, conn) ∈ w.connections i →
    Names instances i partition name → (w.databases conn).logicalName = some name
  opened : ∀ c i partition conn name, Opened trace c i partition conn →
    Names instances i partition name → (w.databases conn).logicalName = some name
  used : ∀ c i call op r conn target, .performed c (i, call) op r ∈ trace →
    op.eventsOf = some (conn, target) → ∃ partition, Opened trace c i partition conn ∧
      ∀ id, target = some id → (instances i).naming.partitionForAggregate id = .ok partition

/-- What a running call knows of its connections. -/
structure KnowsOpened (c : Nat) (call : Nat × StoreCall) (k : Nat × OpenKnowledge P D)
    (w : Cluster P D) (trace : List (StoreEvent P D)) : Prop where
  instance_ : k.1 = call.1
  opened : ∀ partition conn, (partition, conn) ∈ k.2.opened → Opened trace c call.1 partition conn
  recorded : ∀ conn name, (conn, name) ∈ k.2.recorded → (w.databases conn).logicalName = some name

variable {instances} {w w' : Cluster P D} {trace : List (StoreEvent P D)} {c : Nat}
  {call : Nat × StoreCall} {k : Nat × OpenKnowledge P D} {op : StoreOp P D} {r : op.Res}

theorem KnowsOpened.other {event : StoreEvent P D} (h : KnowsOpened c call k w trace)
    (stable : ∀ d name, (w.databases d).logicalName = some name →
      (w'.databases d).logicalName = some name) : KnowsOpened c call k w' (trace ++ [event]) where
  instance_ := h.instance_
  opened partition conn member := (h.opened partition conn member).mono
  recorded conn name member := stable conn name (h.recorded conn name member)

/-- An event that is no operation. -/
theorem Apart.extend {event : StoreEvent P D} (h : Apart instances w trace)
    (quiet : ∀ c call op r, event ≠ .performed c call op r) : Apart instances w (trace ++ [event]) where
  cached := h.cached
  opened c i partition conn name opened names := by
    obtain ⟨call, member | member⟩ := opened
    · rcases List.mem_append.mp member with old | new
      · exact h.opened c i partition conn name ⟨call, .inl old⟩ names
      · exact absurd (List.mem_singleton.mp new).symm (quiet _ _ _ _)
    · rcases List.mem_append.mp member with old | new
      · exact h.opened c i partition conn name ⟨call, .inr old⟩ names
      · exact absurd (List.mem_singleton.mp new).symm (quiet _ _ _ _)
  used c i call op r conn target member events := by
    rcases List.mem_append.mp member with old | new
    · obtain ⟨partition, opened, routed⟩ := h.used c i call op r conn target old events
      exact ⟨partition, opened.mono, routed⟩
    · exact absurd (List.mem_singleton.mp new).symm (quiet _ _ _ _)

variable [DecidableEq P] [DecidableEq D] [UlidParser]

/-- An operation that its discipline allows keeps the partitions apart. -/
theorem Apart.perform (h : Apart instances w trace) (known : KnowsOpened c call k w trace)
    (may : openMay (instances call.1).naming k.2 op) (step : InstanceStep call.1 w op r w') :
    Apart instances w' (trace ++ [.performed c call op r]) := by
  obtain ⟨outside, served⟩ := step
  have stable : ∀ d name, (w.databases d).logicalName = some name →
      (w'.databases d).logicalName = some name := fun d name => serve_logicalName served
  have caching : ∀ partition conn name, op = .cacheConnection partition conn →
      Names instances call.1 partition name → (w'.databases conn).logicalName = some name := by
    rintro partition conn name rfl names
    exact stable conn name (known.recorded conn name (may name names))
  refine ⟨?_, ?_, ?_⟩
  · intro i partition conn name member names
    rcases serve_connections served member with old | ⟨rfl, caches⟩
    · exact stable conn name (h.cached i partition conn name old names)
    · exact caching partition conn name caches names
  · intro c' i partition conn name opened names
    obtain ⟨call', member | member⟩ := opened
    · rcases List.mem_append.mp member with old | new
      · exact stable conn name (h.opened c' i partition conn name ⟨call', .inl old⟩ names)
      · cases List.mem_singleton.mp new
        exact caching partition conn name rfl names
    · rcases List.mem_append.mp member with old | new
      · exact stable conn name (h.opened c' i partition conn name ⟨call', .inr old⟩ names)
      · cases List.mem_singleton.mp new
        simp only [serve, Option.some.injEq, Prod.mk.injEq] at served
        exact stable conn name
          (h.cached i partition conn name (mem_of_findConnection served.1) names)
  · intro c' i call' op' r' conn target member events
    rcases List.mem_append.mp member with old | new
    · obtain ⟨partition, opened, routed⟩ := h.used c' i call' op' r' conn target old events
      exact ⟨partition, opened.mono, routed⟩
    · cases List.mem_singleton.mp new
      obtain ⟨partition, opened, routed⟩ := (openMay_uses may) conn target events
      exact ⟨partition, (known.opened partition conn opened).mono, routed⟩

theorem KnowsOpened.perform (known : KnowsOpened c call k w trace)
    (step : InstanceStep call.1 w op r w') :
    KnowsOpened c call (k.1, k.2.learn op r) w' (trace ++ [.performed c call op r]) := by
  obtain ⟨outside, served⟩ := step
  have kept : KnowsOpened c call k w' (trace ++ [.performed c call op r]) :=
    known.other fun d name => serve_logicalName served
  unfold OpenKnowledge.learn
  split
  · next partition conn =>
      refine ⟨known.instance_, fun partition' conn' member => ?_, kept.recorded⟩
      rcases List.mem_cons.mp member with new | old
      · cases new
        exact ⟨call.2, .inr (List.mem_append_right _ (List.mem_singleton_self _))⟩
      · exact kept.opened partition' conn' old
  · next partition conn _ =>
      refine ⟨known.instance_, fun partition' conn' member => ?_, kept.recorded⟩
      rcases List.mem_cons.mp member with new | old
      · cases new
        exact ⟨call.2, .inl (List.mem_append_right _ (List.mem_singleton_self _))⟩
      · exact kept.opened partition' conn' old
  · next conn name =>
      refine ⟨known.instance_, kept.opened, fun conn' name' member => ?_⟩
      rcases List.mem_cons.mp member with new | old
      · cases new
        exact serve_selectLogicalName served
      · exact kept.recorded conn' name' old
  · exact kept

end Run

section Rule

variable [LinearOrder P] [DecidableEq D] [UlidParser] [Base32Nopad]
  {instances : Nat → NamedCatalog P D} {generators : Nat → Generator}

/-- The rely-guarantee rule of the connections. -/
def namesRule (instances : Nat → NamedCatalog P D) :
    Pool.Rule (S := namedCluster instances) (K := Nat × OpenKnowledge P D) (G := Unit)
      (Discipline.tagged fun i => openDiscipline (instances i).naming) fun _ _ => True where
  inv _ w trace := Apart instances w trace
  holds _ c call k w trace := KnowsOpened c call k w trace
  start call := (call.1, {})
  done _ _ _ := True
  obeys call := by
    let family := fun i => openDiscipline (instances i).naming
    have own : (family call.1).Obeys (fun _ _ => True)
        (call.2.program (instances call.1).naming.toPartitionStrategy (instances call.1).catalog) {} :=
      opens_call (instances call.1).prepares call.2
    exact own.tagged.mono fun _ _ _ => trivial
  invoke {g w trace c call} h _ _ _ := by
    have begun : KnowsOpened c call (call.1, {}) w (trace ++ [.invoked c call]) := by
      refine ⟨rfl, ?_, ?_⟩
      · intro partition conn member
        cases member
      · intro conn name member
        cases member
    refine ⟨(), Apart.extend h ?_, begun, fun c' call' k' _ known => ?_⟩
    · intro c' call' op r same
      cases same
    · exact KnowsOpened.other known fun _ _ same => same
  perform {g w trace c call k op r w'} h _ known may _ step := by
    have here : openMay (instances call.1).naming k.2 op := known.instance_ ▸ may
    refine ⟨(), h.perform known here step, known.perform step, fun c' call' k' _ other => ?_⟩
    obtain ⟨outside, served⟩ := step
    exact other.other fun d name => serve_logicalName served
  finish {g w trace c call k result} h _ _ _ _ := by
    refine ⟨(), Apart.extend h ?_, fun c' call' k' _ known => ?_⟩
    · intro c' call' op r same
      cases same
    · exact KnowsOpened.other known fun _ _ same => same

theorem reachable_apart {p : Pool (namedCluster instances)}
    (reach : Pool.Reachable (Cluster.initial generators) p) : Apart instances p.shared p.trace := by
  have begin : (namesRule instances).inv () (Cluster.initial generators) [] := by
    refine ⟨?_, ?_, ?_⟩
    · intro i partition conn name member
      cases member
    · rintro c i partition conn name ⟨call, member | member⟩
      · cases member
      · cases member
    · intro c i call op r conn target member
      cases member
  obtain ⟨_, apart, _⟩ := (namesRule instances).sound begin reach
  exact apart

/-- Two connections to one database for named partitions are for one name; the
name a database has stays its name; and events are only written and read through
connections for their own partition, so none reaches a database of another name. -/
theorem logical_partitions_never_share {p : Pool (namedCluster instances)}
    (reach : Pool.Reachable (Cluster.initial generators) p) :
    (∀ c i partition m c' j partition' n conn, Opened p.trace c i partition conn →
      Opened p.trace c' j partition' conn → Names instances i partition m →
      Names instances j partition' n → m = n) ∧
    (∀ events q conn name, Pool.Stretch p events q →
      (p.shared.databases conn).logicalName = some name →
      (q.shared.databases conn).logicalName = some name) ∧
    (∀ c i call op r conn target, .performed c (i, call) op r ∈ p.trace →
      op.eventsOf = some (conn, target) → ∃ partition, Opened p.trace c i partition conn ∧
        ∀ id, target = some id → (instances i).naming.partitionForAggregate id = .ok partition) ∧
    ∀ c i call op r conn id partition m, .performed c (i, call) op r ∈ p.trace →
      op.eventsOf = some (conn, some id) →
      (instances i).naming.partitionForAggregate id = .ok partition → Names instances i partition m →
      ∀ c' j partition' n, Opened p.trace c' j partition' conn → Names instances j partition' n →
        m = n := by
  have apart := reachable_apart reach
  have agree : ∀ c i partition m c' j partition' n conn, Opened p.trace c i partition conn →
      Opened p.trace c' j partition' conn → Names instances i partition m →
      Names instances j partition' n → m = n := by
    intro c i partition m c' j partition' n conn opened opened' names names'
    have recorded := apart.opened c i partition conn m opened names
    rw [apart.opened c' j partition' conn n opened' names'] at recorded
    exact (Option.some.inj recorded).symm
  refine ⟨agree, ?_, apart.used, ?_⟩
  · intro events q conn name stretch recorded
    refine stretch.preserves (P := fun w => (w.databases conn).logicalName = some name) ?_ recorded
    rintro c call w op r w' - ⟨outside, served⟩
    exact serve_logicalName served
  · intro c i call op r conn id partition m performed events routed names c' j partition' n opened'
      names'
    obtain ⟨own, opened, same⟩ := apart.used c i call op r conn (some id) performed events
    obtain rfl : own = partition := Except.ok.inj ((same id rfl).symm.trans routed)
    exact agree c i own m c' j partition' n conn opened opened' names names'

end Rule

/-! ### Two stores, two types, one database -/

section OneTarget

attribute [local instance] canonicalUlidParser canonicalBase32

/-- One store on named targets and one on local files, by type. -/
def typedStores (i : Nat) : NamedCatalog TypePartition Unit :=
  if i = 0 then .namedTargets (typeStrategy (D := Unit)).toPartitionNamingStrategy
  else .localFiles typeStrategy

def typedPublish (i : Nat) (type : String) : Nat × StoreCall :=
  (i, .publish ⟨⟨type⟩, "1"⟩ {} [⟨⟨"created"⟩, ⟨.json, []⟩⟩])

/-- Calls on the stores, each running alone, one after the other. -/
def namedRun [LinearOrder P] [DecidableEq D] [UlidParser] [Base32Nopad]
    (instances : Nat → NamedCatalog P D) (outside : Outside D) (calls : List (Nat × StoreCall)) :
    Option (List StoreResult × Cluster P D) :=
  Pool.runInOrder (S := namedCluster instances) (answeredBy Prod.fst outside) 0 calls
    (Cluster.initial fun _ => .countingFrom 0)

/-- The second publish reaches the database of the first and is turned away. -/
def typedRun : Option (List StoreResult × Cluster TypePartition Unit) :=
  namedRun typedStores { database := () } [typedPublish 0 "order", typedPublish 1 "invoice"]

def StoreResult.succeeded : StoreResult → Bool
  | .loaded r => r.isOk
  | .published r => r.isOk
  | .enumerated r => r.isOk

theorem invoice_turned_away : ∃ p : Pool (namedCluster typedStores),
    Pool.Reachable (Cluster.initial fun _ => .countingFrom 0) p ∧
      (p.shared.databases ()).logicalName = some "order" ∧
      (p.shared.databases ()).events.rows.length = 1 ∧
      ∀ c i partition m c' j partition' n, Opened p.trace c i partition () →
        Opened p.trace c' j partition' () → Names typedStores i partition m →
        Names typedStores j partition' n → m = n := by
  have outcome : (typedRun.map fun run => (run.1.map StoreResult.succeeded,
      (run.2.databases ()).logicalName, (run.2.databases ()).events.rows.length)) =
        some ([true, false], some "order", 1) := by decide +kernel
  obtain ⟨⟨results, w'⟩, run, seen⟩ := Option.map_eq_some_iff.mp outcome
  obtain ⟨-, recorded, rows⟩ : _ ∧ _ ∧ _ := by simpa using seen
  have reached : ∃ p : Pool (namedCluster typedStores),
      Pool.Reachable (Cluster.initial fun _ => .countingFrom 0) p ∧ p.shared = w' := by
    rw [typedRun, namedRun] at run
    obtain ⟨p, reach, same, -⟩ := reachable_inOrder { database := () } run
    exact ⟨p, reach, same⟩
  obtain ⟨p, reach, rfl⟩ := reached
  refine ⟨p, reach, recorded, rows, ?_⟩
  intro c i partition m c' j partition' n
  exact (logical_partitions_never_share reach).1 c i partition m c' j partition' n ()

end OneTarget
end WeeEvents.Sqlite
