import WeeEvents.Sqlite.Cluster
import WeeEvents.Sqlite.Catalogs
import WeeEvents.Foundation.SortedSets

/-!
# The two enumerations

What is listed depends on which partitions are known and on what their databases
hold, and on nothing else: not on the order of partitions and rows, and not on
the read plan, as long as the plan for one type lists what the full plan lists of
that type.
-/
namespace WeeEvents.Sqlite
open Foundation

/-! ### What a read plan lists -/

/-- An aggregate listed under a plan, from a partition whose database, if there is one, holds
these events. -/
def PartitionRead.Lists (events : Option EventsTable) (id : AggregateId) : PartitionRead → Prop
  | .scanAll => ∃ t, events = some t ∧ id ∈ t.selectAggregates
  | .scanType type => ∃ t, events = some t ∧ id ∈ (t.selectKeys type).map (AggregateId.mk type)
  | .direct listed => id = listed
  | .skip => False

theorem mem_selectAggregates {t : EventsTable} {id : AggregateId} :
    id ∈ t.selectAggregates ↔ ∃ row ∈ t.rows, row.aggregateId = id := by
  rw [EventsTable.selectAggregates, List.mem_dedup, List.mem_map]

theorem mem_selectKeys {t : EventsTable} {type : AggregateType} {id : AggregateId} :
    id ∈ (t.selectKeys type).map (AggregateId.mk type) ↔
      id ∈ t.selectAggregates ∧ id.aggregateType = type := by
  rw [mem_selectAggregates, List.mem_map]
  constructor
  · rintro ⟨key, member, rfl⟩
    rw [EventsTable.selectKeys, List.mem_dedup, List.mem_map] at member
    obtain ⟨row, kept, rfl⟩ := member
    obtain ⟨inside, ofType⟩ := List.mem_filter.mp kept
    refine ⟨⟨row, inside, ?_⟩, rfl⟩
    rw [Row.aggregateId, beq_iff_eq.mp ofType]
  · rintro ⟨⟨row, inside, rfl⟩, rfl⟩
    refine ⟨row.aggregateKey, ?_, rfl⟩
    rw [EventsTable.selectKeys, List.mem_dedup, List.mem_map]
    exact ⟨row, List.mem_filter.mpr ⟨inside, beq_self_eq_true _⟩, rfl⟩

/-- The query for one type lists what the query for all lists of that type. -/
theorem lists_scanType {events : Option EventsTable} {id : AggregateId} {type : AggregateType} :
    (PartitionRead.scanType type).Lists events id ↔
      PartitionRead.scanAll.Lists events id ∧ id.aggregateType = type := by
  constructor
  · rintro ⟨t, rfl, member⟩
    obtain ⟨inside, ofType⟩ := mem_selectKeys.mp member
    exact ⟨⟨t, rfl, inside⟩, ofType⟩
  · rintro ⟨⟨t, rfl, inside⟩, ofType⟩
    exact ⟨t, rfl, mem_selectKeys.mpr ⟨inside, ofType⟩⟩

/-- The plans of a strategy for one type list what its full plans list of that type. -/
def PlansAgree {P : Type} (strategy : PartitionStrategy P) : Prop :=
  ∀ partition type events id, (strategy.readPlanByType partition type).Lists events id ↔
    (strategy.readPlan partition).Lists events id ∧ id.aggregateType = type

section Strategies

variable {D : Type}

theorem plansAgree_global : PlansAgree (globalStrategy (D := D)).toPartitionStrategy :=
  fun _ _ _ _ => lists_scanType

theorem plansAgree_hashed (buckets : { n : UInt32 // n ≠ 0 }) :
    PlansAgree (hashedStrategy (D := D) buckets).toPartitionStrategy :=
  fun _ _ _ _ => lists_scanType

theorem plansAgree_partitionBy (partitioner : AggregateId → String) :
    PlansAgree (partitionByStrategy (D := D) partitioner).toPartitionStrategy :=
  fun _ _ _ _ => lists_scanType

/-- A partition of another type is skipped, and lists only its own type in full. -/
theorem plansAgree_type : PlansAgree (typeStrategy (D := D)).toPartitionStrategy := by
  intro partition type events id
  show (if partition.key = type then PartitionRead.scanType type else .skip).Lists events id ↔
    (PartitionRead.scanType partition.key).Lists events id ∧ id.aggregateType = type
  by_cases same : partition.key = type
  · rw [if_pos same, same, lists_scanType, and_assoc, and_self]
  · rw [if_neg same]
    constructor
    · exact False.elim
    · rintro ⟨listed, ofType⟩
      exact same ((lists_scanType.mp listed).2.symm.trans ofType)

/-- Nothing is read: the one aggregate is listed, or skipped, by its type. -/
theorem plansAgree_aggregate : PlansAgree (aggregateStrategy (D := D)).toPartitionStrategy := by
  intro partition type events id
  show (if partition.key.aggregateType = type then PartitionRead.direct partition.key
    else .skip).Lists events id ↔ (PartitionRead.direct partition.key).Lists events id ∧
      id.aggregateType = type
  by_cases same : partition.key.aggregateType = type
  · rw [if_pos same]
    constructor
    · rintro rfl
      exact ⟨rfl, same⟩
    · exact And.left
  · rw [if_neg same]
    constructor
    · exact False.elim
    · rintro ⟨rfl, ofType⟩
      exact same ofType

end Strategies

/-! ### Sorting -/

theorem increasing_sortedUniqueIds (ids : List AggregateId) :
    Increasing sortKey (sortedUniqueIds ids) := by
  apply increasing_destutter sortKey_injective
  have total : Std.Total fun a b : AggregateId => sortKey a ≤ sortKey b :=
    ⟨fun a b => le_total (sortKey a) (sortKey b)⟩
  have transitive : IsTrans AggregateId fun a b => sortKey a ≤ sortKey b :=
    ⟨fun _ _ _ => le_trans⟩
  exact List.pairwise_insertionSort (fun a b : AggregateId => sortKey a ≤ sortKey b) ids

theorem mem_sortedUniqueIds {ids : List AggregateId} {id : AggregateId} :
    id ∈ sortedUniqueIds ids ↔ id ∈ ids := by
  rw [sortedUniqueIds, mem_destutter_ne, List.mem_insertionSort]

theorem answer_ok {D α : Type} {outside : Outside D} {value a : α}
    (answered : outside.answer value = .ok a) : a = value := by
  unfold Outside.answer at answered
  split at answered
  · cases answered
  · exact (Except.ok.inj answered).symm

/-! ### What an instance sees -/

/-- An operation of a store instance, the rows of a query in any order. -/
inductive AnyOrderStep {P D : Type} [DecidableEq P] [DecidableEq D] [UlidParser] (store : Nat)
    (w : Cluster P D) : (op : StoreOp P D) → op.Res → Cluster P D → Prop
  | inOrder {op : StoreOp P D} {r : op.Res} {w' : Cluster P D} : InstanceStep store w op r w' →
      AnyOrderStep store w op r w'
  | aggregates {conn : D} {ids ids' : List AggregateId} {w' : Cluster P D} :
      InstanceStep store w (.enumerateAllFromConnection conn) (.ok ids) w' → ids'.Perm ids →
      AnyOrderStep store w (.enumerateAllFromConnection conn) (.ok ids') w'
  | keys {conn : D} {type : AggregateType} {ids ids' : List AggregateId} {w' : Cluster P D} :
      InstanceStep store w (.enumerateByTypeFromConnection conn type) (.ok ids) w' →
      ids'.Perm ids → AnyOrderStep store w (.enumerateByTypeFromConnection conn type) (.ok ids') w'

/-- What surrounds a store: the partitions its catalog lists, the target it finds for each, and
the database behind each target. -/
structure Surroundings (P D : Type) where
  listed : P → Prop
  located : P → Option DatabaseTarget
  behind : DatabaseTarget → D

namespace Surroundings

variable {P D : Type} [DecidableEq P]

/-- The steps are operations of the instance under which the catalog lists and finds this. -/
structure Steady [DecidableEq D] [UlidParser] (around : Surroundings P D) (store : Nat)
    (catalog : PartitionCatalog P D)
    (step : Cluster P D → (op : StoreOp P D) → op.Res → Cluster P D → Prop) : Prop where
  steps : ∀ w op r w', step w op r w' → AnyOrderStep store w op r w'
  lists : ∀ w partitions w',
    Program.Runs step w (fromCatalog catalog.partitions) (.ok partitions) w' →
      ∀ partition, partition ∈ partitions ↔ around.listed partition
  finds : ∀ w partition found w',
    Program.Runs step w (fromCatalog (catalog.targetForExistingPartition partition)) (.ok found) w' →
      found = around.located partition
  opens : ∀ w target conn w',
    step w (.catalog (.openEventStoreConnection target)) (.ok conn) w' → conn = around.behind target

variable (around : Surroundings P D) (store : Nat)

/-- A partition is known when it is listed or its connection is cached. -/
def Knows (w : Cluster P D) (partition : P) : Prop :=
  around.listed partition ∨ partition ∈ (w.connections store).map Prod.fst

/-- The database that is read for a partition: the cached one, else the one that is found. -/
def place (w : Cluster P D) (partition : P) : Option D :=
  (findConnection (w.connections store) partition).or ((around.located partition).map around.behind)

def contents (w : Cluster P D) (partition : P) : Option EventsTable :=
  (around.place store w partition).map fun d => (w.databases d).events

/-- The same partitions are known, in the same places, with the same events. -/
structure SameView (w w' : Cluster P D) : Prop where
  events : ∀ d, (w'.databases d).events = (w.databases d).events
  place : ∀ partition, around.place store w' partition = around.place store w partition
  knows : ∀ partition, around.Knows store w' partition ↔ around.Knows store w partition

variable {around store} {w w' w'' : Cluster P D} {partition : P}

theorem SameView.refl (w : Cluster P D) : around.SameView store w w :=
  ⟨fun _ => rfl, fun _ => rfl, fun _ => Iff.rfl⟩

theorem SameView.trans (h : around.SameView store w w') (h' : around.SameView store w' w'') :
    around.SameView store w w'' where
  events d := (h'.events d).trans (h.events d)
  place partition := (h'.place partition).trans (h.place partition)
  knows partition := (h'.knows partition).trans (h.knows partition)

theorem SameView.contents (h : around.SameView store w w') (partition : P) :
    around.contents store w' partition = around.contents store w partition := by
  unfold Surroundings.contents
  rw [h.place]
  congr 1
  funext d
  exact h.events d

theorem SameView.of_connections (events : ∀ d, (w'.databases d).events = (w.databases d).events)
    (connections : w'.connections = w.connections) : around.SameView store w w' := by
  refine ⟨events, fun partition => ?_, fun partition => ?_⟩
  · rw [Surroundings.place, connections]
    rfl
  · rw [Surroundings.Knows, connections]
    rfl

theorem findConnection_cache_ne {connections : List (P × D)} {conn : D} {other : P}
    (ne : other ≠ partition) :
    findConnection ((partition, conn) :: connections.filter (·.1 ≠ partition)) other =
      findConnection connections other := by
  unfold findConnection
  rw [List.find?_cons_of_neg (by simpa using ne.symm), List.find?_filter]
  congr 2
  funext entry
  by_cases same : entry.1 = other
  · simp [same, ne]
  · simp [same]

/-- Caching the connection of a known partition where it is found anyway changes nothing. -/
theorem SameView.cache {conn : D} (knows : around.Knows store w partition)
    (place : around.place store w partition = some conn) :
    around.SameView store w (w.setConnections store
      ((partition, conn) :: (w.connections store).filter (·.1 ≠ partition))) := by
  have connections : (w.setConnections store
      ((partition, conn) :: (w.connections store).filter (·.1 ≠ partition))).connections store =
        (partition, conn) :: (w.connections store).filter (·.1 ≠ partition) :=
    Function.update_self ..
  refine ⟨fun _ => rfl, fun other => ?_, fun other => ?_⟩
  · by_cases same : other = partition
    · subst same
      rw [place, Surroundings.place, connections]
      simp [findConnection]
    · rw [Surroundings.place, connections, findConnection_cache_ne same]
      rfl
  · by_cases same : other = partition
    · subst same
      rw [iff_true_right knows, Surroundings.Knows, connections]
      exact .inr List.mem_cons_self
    · unfold Surroundings.Knows
      rw [connections]
      apply or_congr Iff.rfl
      constructor
      · intro member
        rcases List.mem_cons.mp member with here | later
        · exact absurd here same
        · exact List.map_subset _ (List.filter_subset_self ..) later
      · intro member
        obtain ⟨entry, inside, rfl⟩ := List.mem_map.mp member
        exact List.mem_cons_of_mem _
          (List.mem_map_of_mem (List.mem_filter.mpr ⟨inside, by simpa using same⟩))

/-! ### Runs that only read -/

section Runs

variable [DecidableEq D] [UlidParser] {catalog : PartitionCatalog P D}
  {step : Cluster P D → (op : StoreOp P D) → op.Res → Cluster P D → Prop}

theorem Steady.catalogStep (steady : around.Steady store catalog step) {op : CatalogOp D} {r : op.Res}
    (stepped : step w (.catalog op) r w') :
    (∀ d, (w'.databases d).events = (w.databases d).events) ∧ w'.connections = w.connections := by
  cases steady.steps _ _ _ _ stepped with
  | inOrder served =>
      obtain ⟨outside, served⟩ := served
      refine ⟨(serve_other (by simp) served).1, ?_⟩
      cases served
      rfl

/-- The programs of a catalog leave events and connections. -/
theorem Steady.fromCatalog {α : Type} (steady : around.Steady store catalog step)
    {p : CatalogProgram D α} {r : Except SqliteError α}
    (run : Program.Runs step w (fromCatalog p) r w') :
    (∀ d, (w'.databases d).events = (w.databases d).events) ∧ w'.connections = w.connections := by
  induction p generalizing w with
  | ret a =>
      obtain ⟨_, rfl⟩ := Program.runs_ret.mp run
      exact ⟨fun _ => rfl, rfl⟩
  | call op next ih =>
      obtain ⟨answer, w₁, stepped, rest⟩ := run.of_call
      obtain ⟨events, connections⟩ := steady.catalogStep stepped
      obtain ⟨events', connections'⟩ := ih answer rest
      exact ⟨fun d => (events' d).trans (events d), connections'.trans connections⟩

theorem Steady.cached (steady : around.Steady store catalog step) {found : Option D}
    (stepped : step w (.cachedConnection partition) found w') :
    found = findConnection (w.connections store) partition ∧ w' = w := by
  cases steady.steps _ _ _ _ stepped with
  | inOrder served =>
      obtain ⟨outside, served⟩ := served
      cases served
      exact ⟨rfl, rfl⟩

theorem Steady.cache (steady : around.Steady store catalog step) {conn : D} {r : Unit}
    (stepped : step w (.cacheConnection partition conn) r w') :
    w' = w.setConnections store
      ((partition, conn) :: (w.connections store).filter (·.1 ≠ partition)) := by
  cases steady.steps _ _ _ _ stepped with
  | inOrder served =>
      obtain ⟨outside, served⟩ := served
      cases served
      rfl

/-- Opening the target that is found for a known partition leaves the view. -/
theorem Steady.openAndCache (steady : around.Steady store catalog step) {target : DatabaseTarget}
    {r : Except SqliteError D} (knows : around.Knows store w partition)
    (place : around.place store w partition = some (around.behind target))
    (run : Program.Runs step w (openAndCache catalog partition target) r w') :
    around.SameView store w w' ∧ ∀ conn, r = .ok conn → conn = around.behind target := by
  rcases run.of_andThen with ⟨e, rfl, opening⟩ | ⟨conn, w₁, opening, rest⟩
  · obtain ⟨events, connections⟩ := steady.fromCatalog opening
    exact ⟨.of_connections events connections, fun conn same => by cases same⟩
  · obtain ⟨events, connections⟩ := steady.fromCatalog opening
    have opened : around.SameView store w w₁ := .of_connections events connections
    have isBehind : conn = around.behind target := by
      obtain ⟨answer, w₂, stepped, answered⟩ := opening.of_call
      obtain ⟨same, rfl⟩ := Program.runs_ret.mp answered
      cases answer with
      | error e => cases same
      | ok d =>
          cases same
          exact steady.opens _ _ _ _ stepped
    rcases rest.of_andThen with ⟨e, rfl, preparing⟩ | ⟨_, w₂, preparing, caching⟩
    · obtain ⟨events', connections'⟩ := steady.fromCatalog preparing
      exact ⟨opened.trans (.of_connections events' connections'), fun conn same => by cases same⟩
    · obtain ⟨events', connections'⟩ := steady.fromCatalog preparing
      have prepared : around.SameView store w w₂ :=
        opened.trans (.of_connections events' connections')
      obtain ⟨_, w₃, stepped, finish⟩ := caching.of_call
      obtain ⟨rfl, rfl⟩ := Program.runs_ret.mp finish
      have cached := steady.cache stepped
      subst cached isBehind
      refine ⟨prepared.trans (.cache ((prepared.knows partition).mpr knows) ?_), ?_⟩
      · rw [prepared.place, place]
      · intro conn same
        exact (Except.ok.inj same).symm

/-- What opening a known partition finds is its place. -/
theorem Steady.openPartitionIfExists (steady : around.Steady store catalog step)
    {r : Except SqliteError (Option D)} (knows : around.Knows store w partition)
    (run : Program.Runs step w (openPartitionIfExists catalog partition) r w') :
    around.SameView store w w' ∧ ∀ found, r = .ok found → found = around.place store w partition := by
  obtain ⟨cached, w₁, stepped, rest⟩ := run.of_call
  obtain ⟨isCached, rfl⟩ := steady.cached stepped
  cases cached with
  | some conn =>
      obtain ⟨rfl, rfl⟩ := Program.runs_ret.mp rest
      refine ⟨.refl _, fun found same => ?_⟩
      cases same
      rw [place, ← isCached]
      rfl
  | none =>
      have uncached : around.place store w₁ partition =
          (around.located partition).map around.behind := by
        rw [place, ← isCached]
        rfl
      rcases rest.of_andThen with ⟨e, rfl, finding⟩ | ⟨found, w₂, finding, opening⟩
      · obtain ⟨events, connections⟩ := steady.fromCatalog finding
        exact ⟨.of_connections events connections, fun found same => by cases same⟩
      · obtain ⟨events, connections⟩ := steady.fromCatalog finding
        have view : around.SameView store w₁ w₂ := .of_connections events connections
        have isFound := steady.finds _ _ _ _ finding
        rw [← isFound] at uncached
        cases found with
        | none =>
            obtain ⟨rfl, rfl⟩ := Program.runs_ret.mp opening
            refine ⟨view, fun found same => ?_⟩
            cases same
            exact uncached.symm
        | some target =>
            have place : around.place store w₂ partition = some (around.behind target) := by
              rw [view.place, uncached]
              rfl
            have knows₂ := (view.knows partition).mpr knows
            rcases opening.of_andThen with ⟨e, rfl, failed⟩ | ⟨conn, w₃, opened, finish⟩
            · obtain ⟨same, _⟩ := steady.openAndCache knows₂ place failed
              exact ⟨view.trans same, fun found same => by cases same⟩
            · obtain ⟨same, isBehind⟩ := steady.openAndCache knows₂ place opened
              obtain ⟨rfl, rfl⟩ := Program.runs_ret.mp finish
              refine ⟨view.trans same, fun found isOk => ?_⟩
              cases isOk
              rw [uncached, isBehind conn rfl]
              rfl

theorem Steady.aggregates (steady : around.Steady store catalog step) {conn : D}
    {r : Except BackendError (List AggregateId)}
    (stepped : step w (.enumerateAllFromConnection conn) r w') :
    w' = w ∧ ∀ ids, r = .ok ids → ids.Perm (w.databases conn).events.selectAggregates := by
  cases steady.steps _ _ _ _ stepped with
  | inOrder served =>
      obtain ⟨outside, served⟩ := served
      obtain ⟨answered, rfl⟩ := Prod.mk.inj (Option.some.inj served)
      refine ⟨rfl, fun ids same => ?_⟩
      rw [answer_ok (answered.trans same)]
  | aggregates served perm =>
      obtain ⟨outside, served⟩ := served
      obtain ⟨answered, rfl⟩ := Prod.mk.inj (Option.some.inj served)
      refine ⟨rfl, fun ids same => ?_⟩
      cases same
      rwa [← answer_ok answered]

theorem Steady.keys (steady : around.Steady store catalog step) {conn : D} {type : AggregateType}
    {r : Except BackendError (List AggregateId)}
    (stepped : step w (.enumerateByTypeFromConnection conn type) r w') :
    w' = w ∧ ∀ ids, r = .ok ids →
      ids.Perm (((w.databases conn).events.selectKeys type).map (AggregateId.mk type)) := by
  cases steady.steps _ _ _ _ stepped with
  | inOrder served =>
      obtain ⟨outside, served⟩ := served
      obtain ⟨answered, rfl⟩ := Prod.mk.inj (Option.some.inj served)
      refine ⟨rfl, fun ids same => ?_⟩
      rw [answer_ok (answered.trans same)]
  | keys served perm =>
      obtain ⟨outside, served⟩ := served
      obtain ⟨answered, rfl⟩ := Prod.mk.inj (Option.some.inj served)
      refine ⟨rfl, fun ids same => ?_⟩
      cases same
      rwa [← answer_ok answered]

/-- A scan opens the partition if its database exists, and runs one query. -/
theorem Steady.scan (steady : around.Steady store catalog step) (query : D → StoreOp P D)
    (ask : (conn : D) → (query conn).Res → Except BackendError (List AggregateId))
    (select : EventsTable → List AggregateId) {r : Except SqliteError (List AggregateId)}
    (queried : ∀ {w w' : Cluster P D} {conn : D} {answer : (query conn).Res},
      step w (query conn) answer w' → w' = w ∧ ∀ ids, ask conn answer = .ok ids →
        ids.Perm (select (w.databases conn).events))
    (knows : around.Knows store w partition)
    (run : Program.Runs step w ((Sqlite.openPartitionIfExists catalog partition).andThen fun
      | none => .ret (.ok [])
      | some conn => (storeCall (query conn)).bind fun answer =>
          .ret ((ask conn answer).mapError .backend)) r w') :
    around.SameView store w w' ∧ ∀ ids, r = .ok ids → ∀ id,
      id ∈ ids ↔ ∃ t, around.contents store w partition = some t ∧ id ∈ select t := by
  rcases run.of_andThen with ⟨e, rfl, opening⟩ | ⟨found, w₁, opening, querying⟩
  · exact ⟨(steady.openPartitionIfExists knows opening).1, fun ids same => by cases same⟩
  · obtain ⟨view, isPlace⟩ := steady.openPartitionIfExists knows opening
    have place := isPlace found rfl
    cases found with
    | none =>
        obtain ⟨rfl, rfl⟩ := Program.runs_ret.mp querying
        refine ⟨view, fun ids same id => ?_⟩
        cases same
        simp [contents, ← place]
    | some conn =>
        obtain ⟨answer, w₂, stepped, finish⟩ := querying.of_call
        obtain ⟨rfl, rfl⟩ := Program.runs_ret.mp finish
        obtain ⟨rfl, rows⟩ := queried stepped
        refine ⟨view, fun ids same id => ?_⟩
        have answered : ask conn answer = .ok ids := by
          cases asked : ask conn answer with
          | error e =>
              rw [asked] at same
              cases same
          | ok found =>
              rw [asked] at same
              cases same
              rfl
        rw [(rows ids answered).mem_iff, view.events]
        simp [contents, ← place]

/-- Enumerating a known partition lists what its plan lists. -/
theorem Steady.enumeratePartition (steady : around.Steady store catalog step) {plan : PartitionRead}
    {r : Except SqliteError (List AggregateId)} (knows : around.Knows store w partition)
    (run : Program.Runs step w (enumeratePartition catalog partition plan) r w') :
    around.SameView store w w' ∧ ∀ ids, r = .ok ids → ∀ id,
      id ∈ ids ↔ plan.Lists (around.contents store w partition) id := by
  cases plan with
  | scanAll =>
      exact steady.scan .enumerateAllFromConnection (fun _ ids => ids) EventsTable.selectAggregates
        steady.aggregates knows run
  | scanType type =>
      exact steady.scan (.enumerateByTypeFromConnection · type) (fun _ ids => ids)
        (fun t => (t.selectKeys type).map (AggregateId.mk type)) steady.keys knows run
  | direct listed =>
      obtain ⟨rfl, rfl⟩ := Program.runs_ret.mp run
      refine ⟨.refl _, fun ids same id => ?_⟩
      cases same
      exact List.mem_singleton
  | skip =>
      obtain ⟨rfl, rfl⟩ := Program.runs_ret.mp run
      refine ⟨.refl _, fun ids same id => ?_⟩
      cases same
      exact List.mem_nil_iff id

/-- The loop over known partitions, in whatever order. -/
theorem Steady.enumeratePartitions (steady : around.Steady store catalog step)
    {plan : P → PartitionRead} {partitions : List P} {r : Except SqliteError (List AggregateId)}
    (knows : ∀ partition ∈ partitions, around.Knows store w partition)
    (run : Program.Runs step w (enumeratePartitions catalog plan partitions) r w') :
    around.SameView store w w' ∧ ∀ ids, r = .ok ids → ∀ id, id ∈ ids ↔
      ∃ partition ∈ partitions, (plan partition).Lists (around.contents store w partition) id := by
  induction partitions generalizing w r with
  | nil =>
      obtain ⟨rfl, rfl⟩ := Program.runs_ret.mp run
      refine ⟨.refl _, fun ids same id => ?_⟩
      cases same
      simp
  | cons first rest ih =>
      have knowsFirst := knows first List.mem_cons_self
      rcases run.of_andThen with ⟨e, rfl, failed⟩ | ⟨ids, w₁, enumerated, later⟩
      · exact ⟨(steady.enumeratePartition knowsFirst failed).1, fun ids same => by cases same⟩
      · obtain ⟨view, listed⟩ := steady.enumeratePartition knowsFirst enumerated
        have knowsRest : ∀ partition ∈ rest, around.Knows store w₁ partition :=
          fun partition member => (view.knows partition).mpr
            (knows partition (List.mem_cons_of_mem _ member))
        rcases later.of_andThen with ⟨e, rfl, failed⟩ | ⟨more, w₂, others, finish⟩
        · exact ⟨view.trans (ih knowsRest failed).1, fun ids same => by cases same⟩
        · obtain ⟨rfl, rfl⟩ := Program.runs_ret.mp finish
          obtain ⟨viewRest, listedRest⟩ := ih knowsRest others
          refine ⟨view.trans viewRest, fun all same id => ?_⟩
          cases same
          rw [List.mem_append, listed ids rfl, listedRest more rfl]
          simp only [List.mem_cons, exists_eq_or_imp, view.contents]

end Runs
end Surroundings

/-! ### The two calls -/

section Calls

variable {P D : Type} [LinearOrder P] [DecidableEq D] [UlidParser]

open Surroundings

/-- Both calls, for one choice of plans. -/
def enumerateBy (catalog : PartitionCatalog P D) (plan : P → PartitionRead) :
    StoreProgram P D (List AggregateId) :=
  (allKnownPartitions catalog).andThen fun partitions =>
  (enumeratePartitions catalog plan partitions).andThen fun ids =>
  .ret (.ok (sortedUniqueIds ids))

variable {around : Surroundings P D} {store : Nat} {catalog : PartitionCatalog P D}
  {step : Cluster P D → (op : StoreOp P D) → op.Res → Cluster P D → Prop}
  {w w' : Cluster P D}

theorem Surroundings.Steady.allKnownPartitions (steady : around.Steady store catalog step)
    {r : Except SqliteError (List P)}
    (run : Program.Runs step w (allKnownPartitions catalog) r w') :
    around.SameView store w w' ∧ ∀ partitions, r = .ok partitions → ∀ partition,
      partition ∈ partitions ↔ around.Knows store w partition := by
  rcases run.of_andThen with ⟨e, rfl, failed⟩ | ⟨listed, w₁, listing, rest⟩
  · obtain ⟨events, connections⟩ := steady.fromCatalog failed
    exact ⟨.of_connections events connections, fun partitions same => by cases same⟩
  · obtain ⟨events, connections⟩ := steady.fromCatalog listing
    have isListed := steady.lists _ _ _ listing
    obtain ⟨cached, w₂, stepped, finish⟩ := rest.of_call
    obtain ⟨rfl, rfl⟩ := Program.runs_ret.mp finish
    have isCached : cached = (w₁.connections store).map Prod.fst ∧ w' = w₁ := by
      cases steady.steps _ _ _ _ stepped with
      | inOrder served =>
          obtain ⟨outside, served⟩ := served
          cases served
          exact ⟨rfl, rfl⟩
    obtain ⟨rfl, rfl⟩ := isCached
    refine ⟨.of_connections events connections, fun partitions same partition => ?_⟩
    cases same
    rw [mem_sortedSet, List.mem_append, isListed, connections]
    rfl

/-- An enumeration lists, in order, what the plans list of the known partitions. -/
theorem Surroundings.Steady.enumerateBy (steady : around.Steady store catalog step)
    {plan : P → PartitionRead} {r : Except SqliteError (List AggregateId)}
    (run : Program.Runs step w (enumerateBy catalog plan) r w') :
    around.SameView store w w' ∧ ∀ ids, r = .ok ids → Increasing sortKey ids ∧ ∀ id, id ∈ ids ↔
      ∃ partition, around.Knows store w partition ∧
        (plan partition).Lists (around.contents store w partition) id := by
  rcases run.of_andThen with ⟨e, rfl, failed⟩ | ⟨partitions, w₁, knowing, rest⟩
  · exact ⟨(steady.allKnownPartitions failed).1, fun ids same => by cases same⟩
  · obtain ⟨view, known⟩ := steady.allKnownPartitions knowing
    have isKnown := known partitions rfl
    have knows : ∀ partition ∈ partitions, around.Knows store w₁ partition :=
      fun partition member => (view.knows partition).mpr ((isKnown partition).mp member)
    rcases rest.of_andThen with ⟨e, rfl, failed⟩ | ⟨found, w₂, enumerating, finish⟩
    · exact ⟨view.trans (steady.enumeratePartitions knows failed).1, fun ids same => by cases same⟩
    · obtain ⟨viewAll, listed⟩ := steady.enumeratePartitions knows enumerating
      obtain ⟨rfl, rfl⟩ := Program.runs_ret.mp finish
      refine ⟨view.trans viewAll, fun ids same => ?_⟩
      cases same
      refine ⟨increasing_sortedUniqueIds found, fun id => ?_⟩
      rw [mem_sortedUniqueIds, listed found rfl]
      simp only [isKnown, view.contents]

/-- Enumerations, of whatever outcome, one after the other. -/
inductive EnumeratesFrom (strategy : PartitionStrategy P) (catalog : PartitionCatalog P D)
    (step : Cluster P D → (op : StoreOp P D) → op.Res → Cluster P D → Prop) (w : Cluster P D) :
    Cluster P D → Prop
  | start : EnumeratesFrom strategy catalog step w w
  | all {w₁ w₂ : Cluster P D} {r : Except SqliteError (List AggregateId)} :
      EnumeratesFrom strategy catalog step w w₁ →
      Program.Runs step w₁ (enumerateAggregates strategy catalog) r w₂ →
      EnumeratesFrom strategy catalog step w w₂
  | byType {w₁ w₂ : Cluster P D} {type : AggregateType} {r : Except SqliteError (List AggregateId)} :
      EnumeratesFrom strategy catalog step w w₁ →
      Program.Runs step w₁ (enumerateAggregatesByType strategy catalog type) r w₂ →
      EnumeratesFrom strategy catalog step w w₂

theorem EnumeratesFrom.sameView {strategy : PartitionStrategy P}
    (steady : around.Steady store catalog step)
    (reads : EnumeratesFrom strategy catalog step w w') : around.SameView store w w' := by
  induction reads with
  | start => exact .refl _
  | all _ run ih => exact ih.trans (steady.enumerateBy run).1
  | byType _ run ih => exact ih.trans (steady.enumerateBy run).1

/-- Whatever is listed and found around a store, whatever its databases hold, and in whatever
order partitions and rows are read: the full enumeration is strictly sorted and always the
same, and the one by type is its part of that type. -/
def EnumerationsAgree (D : Type) [DecidableEq D] (strategy : PartitionStrategy P) : Prop :=
  ∀ (around : Surroundings P D) (store : Nat) (catalog : PartitionCatalog P D)
    (step : Cluster P D → (op : StoreOp P D) → op.Res → Cluster P D → Prop),
    around.Steady store catalog step → ∀ w w₁ w₂ w₃ : Cluster P D,
      EnumeratesFrom strategy catalog step w w₁ → EnumeratesFrom strategy catalog step w w₂ →
      ∀ ids, Program.Runs step w₁ (enumerateAggregates strategy catalog) (.ok ids) w₃ →
        ids.Pairwise (fun a b => sortKey a < sortKey b) ∧
        (∀ ids' w₄, Program.Runs step w₂ (enumerateAggregates strategy catalog) (.ok ids') w₄ →
          ids' = ids) ∧
        (∀ order found w₄, (∀ partition, partition ∈ order ↔ around.Knows store w partition) →
          Program.Runs step w₂ (enumeratePartitions catalog strategy.readPlan order) (.ok found) w₄ →
          sortedUniqueIds found = ids) ∧
        ∀ type ofType w₄,
          Program.Runs step w₂ (enumerateAggregatesByType strategy catalog type) (.ok ofType) w₄ →
          ofType = ids.filter (·.aggregateType = type)

theorem enumerationsAgree {strategy : PartitionStrategy P} (agree : PlansAgree strategy) :
    EnumerationsAgree D strategy := by
  intro around store catalog step steady w w₁ w₂ w₃ reads₁ reads₂ ids run
  have view₁ := reads₁.sameView steady
  have view₂ := reads₂.sameView steady
  obtain ⟨increasing, listed⟩ := (steady.enumerateBy run).2 ids rfl
  simp only [view₁.knows, view₁.contents] at listed
  refine ⟨increasing, ?_, ?_, ?_⟩
  · intro ids' w₄ again
    obtain ⟨increasing', listed'⟩ := (steady.enumerateBy again).2 ids' rfl
    apply increasing'.ext increasing
    intro id
    rw [listed', listed]
    simp only [view₂.knows, view₂.contents]
  · intro order found w₄ isKnown reading
    have knows : ∀ partition ∈ order, around.Knows store w₂ partition :=
      fun partition member => (view₂.knows partition).mpr ((isKnown partition).mp member)
    have found' := (steady.enumeratePartitions knows reading).2 found rfl
    apply (increasing_sortedUniqueIds found).ext increasing
    intro id
    rw [mem_sortedUniqueIds, found', listed]
    simp only [isKnown, view₂.contents]
  · intro type ofType w₄ typed
    obtain ⟨increasing', listed'⟩ := (steady.enumerateBy typed).2 ofType rfl
    apply increasing'.ext (increasing.filter _)
    intro id
    rw [listed', List.mem_filter, listed]
    simp only [view₂.knows, view₂.contents, agree _ _ _ id, decide_eq_true_eq]
    constructor
    · rintro ⟨partition, known, inside, ofType⟩
      exact ⟨⟨partition, known, inside⟩, ofType⟩
    · rintro ⟨⟨partition, known, inside⟩, ofType⟩
      exact ⟨partition, known, inside, ofType⟩

end Calls

/-- The enumerations agree under every shipped strategy. -/
theorem enumerations_agree (D : Type) [DecidableEq D] [UlidParser] :
    EnumerationsAgree D (globalStrategy (D := D)).toPartitionStrategy ∧
    EnumerationsAgree D (typeStrategy (D := D)).toPartitionStrategy ∧
    EnumerationsAgree D (aggregateStrategy (D := D)).toPartitionStrategy ∧
    (∀ buckets, EnumerationsAgree D (hashedStrategy (D := D) buckets).toPartitionStrategy) ∧
    ∀ partitioner, EnumerationsAgree D (partitionByStrategy (D := D) partitioner).toPartitionStrategy :=
  ⟨enumerationsAgree plansAgree_global, enumerationsAgree plansAgree_type,
    enumerationsAgree plansAgree_aggregate,
    fun buckets => enumerationsAgree (plansAgree_hashed buckets),
    fun partitioner => enumerationsAgree (plansAgree_partitionBy partitioner)⟩

/-! ### Discovered partitions -/

section Discovery

variable {P D : Type} [Base32Nopad] {strategy : LocalPartitionStrategy P D}

theorem discoverNamed_cons {fileName : String} {rest : List String} {partitions : List P}
    (discovered : discoverNamed strategy (fileName :: rest) = .ok partitions) :
    ∃ here there, discoverNamed strategy [fileName] = .ok here ∧
      discoverNamed strategy rest = .ok there ∧ partitions = here ++ there := by
  unfold discoverNamed at discovered
  split at discovered
  · next stem isFile =>
      split at discovered
      · cases discovered
      · next partitionName decoded =>
          split at discovered
          · cases discovered
          · next partition parsed =>
              split at discovered
              · cases discovered
              · next there found =>
                  cases discovered
                  refine ⟨[partition], there, ?_, found, rfl⟩
                  simp only [discoverNamed, isFile, decoded, parsed]
  · next other =>
      refine ⟨[], partitions, ?_, discovered, rfl⟩
      unfold discoverNamed
      split
      · next stem isFile => exact absurd isFile (other stem)
      · rfl

/-- The discovered partitions are those of the single files. -/
theorem mem_discoverNamed {fileNames : List String} {partitions : List P}
    (discovered : discoverNamed strategy fileNames = .ok partitions) {partition : P} :
    partition ∈ partitions ↔ ∃ fileName ∈ fileNames, ∃ here,
      discoverNamed strategy [fileName] = .ok here ∧ partition ∈ here := by
  induction fileNames generalizing partitions with
  | nil =>
      cases discovered
      simp
  | cons fileName rest ih =>
      obtain ⟨here, there, first, later, rfl⟩ := discoverNamed_cons discovered
      rw [List.mem_append, ih later]
      simp only [List.mem_cons, exists_eq_or_imp, first, Except.ok.injEq, exists_eq_left']

end Discovery

/-! ### Steady surroundings -/

section Steady

variable {P D : Type} [LinearOrder P] [DecidableEq D] [UlidParser]

open Surroundings

/-- A single target that is answered alike each time. -/
theorem steady_singleTarget (outside : Outside D) (store : Nat) :
    (⟨fun _ => False, fun _ => outside.existing, fun _ => outside.database⟩ :
      Surroundings P D).Steady store singleTargetCatalog
        fun w op r w' => serve outside store w op = some (r, w') where
  steps w op r w' served := .inOrder ⟨outside, served⟩
  lists w partitions w' run partition := by
    obtain ⟨same, _⟩ := Program.runs_ret.mp run
    cases same
    exact List.mem_nil_iff partition
  finds w partition found w' run := by
    obtain ⟨answer, w₁, served, finish⟩ := run.of_call
    obtain ⟨same, _⟩ := Program.runs_ret.mp finish
    obtain ⟨answered, _⟩ := Prod.mk.inj (Option.some.inj served)
    cases answer with
    | error e => cases same
    | ok target =>
        cases same
        exact answer_ok answered
  opens w target conn w' served := by
    obtain ⟨answered, _⟩ := Prod.mk.inj (Option.some.inj served)
    exact answer_ok answered

/-- The files of a local root and the databases behind targets. -/
structure LocalRoot (D : Type) where
  fileNames : List String
  present : LocalPath → Bool
  behind : DatabaseTarget → D

/-- The file system answers from the root, the directory in any order. -/
def LocalRoot.Answers (root : LocalRoot D) : (op : StoreOp P D) → op.Res → Prop
  | .catalog (.pathExists path), r => r = root.present path
  | .catalog .readDir, r => ∀ fileNames, r = .ok fileNames → fileNames.Perm root.fileNames
  | .catalog (.openEventStoreConnection target), r => ∀ conn, r = .ok conn → conn = root.behind target
  | _, _ => True

variable [Base32Nopad] (strategy : LocalPartitionStrategy P D)

/-- What the local catalog lists of the root and finds in it. -/
def LocalRoot.surroundings (root : LocalRoot D) : Surroundings P D where
  listed partition :=
    match strategy.localPartitionLayout with
    | .singleDatabase => partition ∈ strategy.bootstrapPartitions
    | .namedDatabases =>
        ∃ fileName ∈ root.fileNames, ∃ partitions, discoverNamed strategy [fileName] = .ok partitions ∧
          partition ∈ partitions
  located partition :=
    match pathForPartition strategy partition with
    | .error _ => none
    | .ok path => if root.present path then some (.ofPath path) else none
  behind := root.behind

variable {strategy}

/-- The local catalog over a root that stays as it is. -/
theorem steady_local (root : LocalRoot D) (store : Nat) :
    (root.surroundings strategy).Steady store (localPartitionCatalog strategy)
      fun w op r w' => AnyOrderStep store w op r w' ∧ root.Answers op r where
  steps w op r w' served := served.1
  lists w partitions w' run partition := by
    unfold localPartitionCatalog discoverPartitions at run
    unfold LocalRoot.surroundings
    dsimp only at run ⊢
    cases layout : strategy.localPartitionLayout with
    | singleDatabase =>
        rw [layout] at run
        obtain ⟨same, _⟩ := Program.runs_ret.mp run
        cases same
        rfl
    | namedDatabases =>
        rw [layout] at run
        obtain ⟨answer, w₁, ⟨_, listed⟩, finish⟩ := run.of_call
        cases answer with
        | error e =>
            obtain ⟨same, _⟩ := Program.runs_ret.mp finish
            cases same
        | ok fileNames =>
            obtain ⟨same, _⟩ := Program.runs_ret.mp finish
            have perm : fileNames.Perm root.fileNames := listed fileNames rfl
            cases found : discoverNamed strategy fileNames with
            | error e =>
                rw [found] at same
                cases same
            | ok discovered =>
                rw [found] at same
                cases same
                rw [mem_discoverNamed found]
                simp only [perm.mem_iff]
  finds w partition found w' run := by
    unfold localPartitionCatalog at run
    unfold LocalRoot.surroundings
    dsimp only at run ⊢
    cases isPath : pathForPartition strategy partition with
    | error e =>
        rw [isPath] at run
        obtain ⟨same, _⟩ := Program.runs_ret.mp run
        cases same
    | ok path =>
        rw [isPath] at run
        obtain ⟨answer, w₁, ⟨_, isPresent⟩, finish⟩ := run.of_call
        obtain ⟨same, _⟩ := Program.runs_ret.mp finish
        cases same
        rw [show answer = root.present path from isPresent]
  opens w target conn w' served := served.2 conn rfl

end Steady

/-! ### One database with two types -/

section TwoTypes

attribute [local instance] canonicalUlidParser

def orderRow : Row where
  eventId := "01ARZ3NDEKTSV4RRFFQ69G5FAV"
  aggregateType := "order"
  aggregateKey := "1"
  eventType := "created"
  revision := "01ARZ3NDEKTSV4RRFFQ69G5FAW"
  causationId := none
  correlationId := none
  encoding := "application/json"
  data := []

def invoiceRow : Row :=
  { orderRow with eventId := "01ARZ3NDEKTSV4RRFFQ69G5FAX", aggregateType := "invoice" }

def twoTypes : EventsTable where
  rows := [orderRow, invoiceRow]
  eventIdLength := by decide
  revisionLength := by decide
  primaryKey := by decide
  aggregateIndex := by decide

def twoTypesWorld : Cluster Unit Unit where
  databases _ := { events := twoTypes }
  connections _ := [((), ())]
  generators _ := .countingFrom 0

theorem two_types_enumerated : ∃ ids ofType w w',
    Program.Runs (fun w op r w' => serve { database := () } 0 w op = some (r, w')) twoTypesWorld
      (enumerateAggregates (globalStrategy (D := Unit)).toPartitionStrategy singleTargetCatalog)
      (.ok ids) w ∧
    Program.Runs (fun w op r w' => serve { database := () } 0 w op = some (r, w')) twoTypesWorld
      (enumerateAggregatesByType (globalStrategy (D := Unit)).toPartitionStrategy
        singleTargetCatalog ⟨"order"⟩) (.ok ofType) w' ∧
    ids = [⟨⟨"invoice"⟩, "1"⟩, ⟨⟨"order"⟩, "1"⟩] ∧ ofType = ids.filter (·.aggregateType = ⟨"order"⟩) := by
  have evaluates : ((enumerateAggregates (globalStrategy (D := Unit)).toPartitionStrategy
      singleTargetCatalog).eval (fun op w => serve { database := () } 0 w op) twoTypesWorld).bind (fun all =>
        ((enumerateAggregatesByType (globalStrategy (D := Unit)).toPartitionStrategy
          singleTargetCatalog ⟨"order"⟩).eval (fun op w => serve { database := () } 0 w op)
            twoTypesWorld).map fun one => (all.1.toOption, one.1.toOption.isSome)) =
      some (some [⟨⟨"invoice"⟩, "1"⟩, ⟨⟨"order"⟩, "1"⟩], true) := by decide +kernel
  obtain ⟨⟨r, w⟩, all, rest⟩ := Option.bind_eq_some_iff.mp evaluates
  obtain ⟨⟨r', w'⟩, one, found⟩ := Option.map_eq_some_iff.mp rest
  obtain ⟨isOk, isOk'⟩ := Prod.mk.inj found
  cases r with
  | error e => cases isOk
  | ok ids =>
      cases r' with
      | error e => cases isOk'
      | ok ofType =>
          have run := Program.runs_iff_eval.mpr all
          have typed := Program.runs_iff_eval.mpr one
          obtain ⟨_, _, _, byType⟩ := (enumerations_agree Unit).1 _ 0 singleTargetCatalog _
            (steady_singleTarget { database := () } 0) twoTypesWorld _ _ _ .start .start ids run
          exact ⟨ids, ofType, w, w', run, typed, Option.some.inj isOk, byType _ _ _ typed⟩

end TwoTypes

end WeeEvents.Sqlite
