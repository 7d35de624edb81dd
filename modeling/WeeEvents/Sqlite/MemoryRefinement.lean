import WeeEvents.Sqlite.LocalPublish
import WeeEvents.Sqlite.LocalRestart

/-!
# The SQLite store against the in-memory store

The same calls to a store on local files and to the in-memory store, each on its
own and from empty. The revisions they mint differ; the two logs put them side by
side, and what a caller expects of one store is translated for the other.
-/
namespace WeeEvents.Sqlite
open Foundation
open Memory (Backing AtRest serveMemory memoryStore)

/-! ### Two runs -/

/-- One call to both stores, and both results. -/
structure Exchange where
  call : EventStoreCall
  result : EventStoreResult
  memoryCall : EventStoreCall
  memoryResult : EventStoreResult

def sqliteLog (done : List Exchange) : EventLog := done.flatMap fun exchange => resultEntries exchange.result

def memoryLog (done : List Exchange) : EventLog :=
  done.flatMap fun exchange => resultEntries exchange.memoryResult

/-- The revisions returned so far, those of one store beside those of the other. -/
def matchedRevisions (done : List Exchange) : List (Revision × Revision) :=
  revisionPairs (sqliteLog done) (memoryLog done)

section Refinement

variable {P : Type} [DecidableEq P] [UlidParser] [Base32Nopad]

/-- A store opened on an empty root and an in-memory store, given translated calls. No operation
fails and no draw of a generator is refused. -/
inductive TwoRuns (listing : Listing) (strategy : LocalPartitionStrategy P LocalPath) :
    List Exchange → LocalDisk P → Backing → Prop
  | opened {generator generator' : Generator} {s : LocalDisk P} :
      (LocalDisk.fresh generator).run listing
        (bootstrap (localPartitionCatalog strategy) strategy.toPartitionStrategy) = some (.ok (), s) →
      TwoRuns listing strategy [] s (Backing.new generator')
  | call {done : List Exchange} {s s' : LocalDisk P} {b b' : Backing} {call call' : EventStoreCall}
      {result result' : EventStoreResult} : TwoRuns listing strategy done s b →
      TranslatedCall (matchedRevisions done) call call' →
      s.run listing ((localStore strategy).call call) = some (result, s') →
      (memoryStore.call call').eval (fun op b => serveMemory 0 op b) b = some (result', b') →
      (s'.cluster.generators 0).Unrefused → b'.generator.Unrefused →
      TwoRuns listing strategy (done ++ [⟨call, result, call', result'⟩]) s' b'

/-- Each result agrees with the other store's, revisions matched as they are then. -/
def AllAgree (done : List Exchange) : Prop :=
  ∀ before exchange later, done = before ++ exchange :: later →
    ResultsAgree (matchedRevisions (before ++ [exchange])) exchange.result exchange.memoryResult

variable {listing : Listing} {strategy : LocalPartitionStrategy P LocalPath} {router : Router strategy}

/-- What both stores hold after two runs. -/
structure SideBySide (router : Router strategy) (done : List Exchange) (s : LocalDisk P) (b : Backing) :
    Prop where
  disk : OnDisk router s (sqliteLog done)
  memory : AtRest b (memoryLog done)
  same : List.Forall₂ SameEntry (sqliteLog done) (memoryLog done)
  agree : AllAgree done

theorem calm_call {s : LocalDisk P} {log : EventLog} (listing : Listing) (disk : OnDisk router s log)
    (call : EventStoreCall) :
    ∃ result s', s.run listing ((localStore strategy).call call) = some (result, s') ∧
      ((s'.cluster.generators 0).Unrefused →
        ∃ log', CallStep log call result log' ∧ OnDisk router s' log') := by
  cases call with
  | load id =>
      obtain ⟨s', run, disk'⟩ := calm_load listing disk id
      exact ⟨_, s', run, fun _ => ⟨log, .loaded, disk'⟩⟩
  | publish id options raws => exact calm_publish listing disk id options raws

omit [DecidableEq P] [UlidParser] [Base32Nopad] in
/-- One more exchange. -/
theorem AllAgree.concat {done : List Exchange} {exchange : Exchange} (h : AllAgree done)
    (agree : ResultsAgree (matchedRevisions (done ++ [exchange])) exchange.result exchange.memoryResult) :
    AllAgree (done ++ [exchange]) := by
  intro before other later split
  rcases List.eq_nil_or_concat later with rfl | ⟨front, last, rfl⟩
  · obtain ⟨rfl, same⟩ := List.append_inj' split rfl
    obtain rfl : exchange = other := List.head_eq_of_cons_eq same
    exact agree
  · rw [List.concat_eq_append, ← List.cons_append, ← List.append_assoc] at split
    obtain ⟨earlier, -⟩ := List.append_inj' split rfl
    exact h before other front earlier

theorem TwoRuns.sideBySide (bootstraps : Bootstraps router fun _ => True) {done : List Exchange}
    {s : LocalDisk P} {b : Backing} (runs : TwoRuns listing strategy done s b) :
    SideBySide router done s b := by
  induction runs with
  | @opened generator generator' s opening =>
      obtain ⟨s', again, same, sound⟩ := calm_bootstrap listing bootstraps (.fresh generator)
      obtain ⟨-, rfl⟩ := Prod.mk.inj (Option.some.inj (opening.symm.trans again))
      refine ⟨(OnDisk.fresh generator).undisturbed same sound, Memory.atRest_new generator', .nil, ?_⟩
      intro before exchange later split
      simp at split
  | @call done s s' b b' call call' result result' _ translated ran ran' unrefused unrefused' ih =>
      obtain ⟨result₁, s₁, again, settled⟩ := calm_call listing ih.disk call
      obtain ⟨rfl, rfl⟩ := Prod.mk.inj (Option.some.inj (again.symm.trans ran))
      obtain ⟨result₂, b₁, again', settled'⟩ := ih.memory.calls 0 call'
      obtain ⟨rfl, rfl⟩ := Prod.mk.inj (Option.some.inj (again'.symm.trans ran'))
      obtain ⟨log, step, disk⟩ := settled unrefused
      obtain ⟨log', step', memory⟩ := settled' unrefused'
      obtain ⟨agree, same⟩ := CallStep.agree ih.disk.minted.rising ih.memory.minted.rising ih.same
        translated step step'
      have grown : log = sqliteLog (done ++ [⟨call, result₁, call', result₂⟩]) := by
        rw [step.log_eq, sqliteLog, sqliteLog, List.flatMap_append, List.flatMap_singleton]
      have grown' : log' = memoryLog (done ++ [⟨call, result₁, call', result₂⟩]) := by
        rw [step'.log_eq, memoryLog, memoryLog, List.flatMap_append, List.flatMap_singleton]
      subst grown grown'
      exact ⟨disk, memory, same, ih.agree.concat agree⟩

/-- The runs stopped earlier. -/
theorem TwoRuns.earlier {done before later : List Exchange} {s : LocalDisk P} {b : Backing}
    (runs : TwoRuns listing strategy done s b) (split : done = before ++ later) :
    ∃ s b, TwoRuns listing strategy before s b := by
  induction runs generalizing later with
  | opened opening =>
      obtain ⟨rfl, -⟩ := List.append_eq_nil_iff.mp split.symm
      exact ⟨_, Backing.new (.countingFrom 0), .opened opening⟩
  | @call done s s' b b' call call' result result' runs translated ran ran' unrefused unrefused' ih =>
      rcases List.eq_nil_or_concat later with rfl | ⟨front, last, rfl⟩
      · rw [List.append_nil] at split
        subst split
        exact ⟨s', b', .call runs translated ran ran' unrefused unrefused'⟩
      · rw [List.concat_eq_append, ← List.append_assoc] at split
        obtain ⟨same, -⟩ := List.append_inj' split rfl
        exact ih same

/-- Matched revisions stay matched. -/
theorem TwoRuns.matched_prefix (bootstraps : Bootstraps router fun _ => True)
    {before later : List Exchange} {s : LocalDisk P} {b : Backing}
    (runs : TwoRuns listing strategy (before ++ later) s b) :
    matchedRevisions before <+: matchedRevisions (before ++ later) := by
  obtain ⟨s₁, b₁, earlier⟩ := runs.earlier rfl
  have length := (earlier.sideBySide bootstraps).same.length_eq
  have lengths : (sqliteLog before).revisions.length = (memoryLog before).revisions.length := by
    simp [EventLog.revisions, length]
  have apart : ∀ log more : EventLog, (log ++ more).revisions =
      log.revisions ++ more.map (·.2.revision) := by
    intro log more
    rw [EventLog.revisions, List.map_append, ← List.cons_append]
    rfl
  have grown : sqliteLog (before ++ later) = sqliteLog before ++ sqliteLog later := List.flatMap_append
  have grown' : memoryLog (before ++ later) = memoryLog before ++ memoryLog later := List.flatMap_append
  rw [matchedRevisions, matchedRevisions, revisionPairs, revisionPairs, grown, grown', apart, apart,
    List.zip_append lengths]
  exact List.prefix_append _ _

/-- On a fresh root, with one store instance and nothing failing, the store answers like a fresh
in-memory store: every call runs to its end on both sides, the results are of one kind with the same
events, and the revisions returned are matched once and for all, in order and zero with zero. -/
structure RefinesMemory (strategy : LocalPartitionStrategy P LocalPath) : Prop where
  opens : ∀ listing generator, ∃ s, (LocalDisk.fresh generator).run listing
    (bootstrap (localPartitionCatalog strategy) strategy.toPartitionStrategy) = some (.ok (), s)
  continues : ∀ listing done s b, TwoRuns listing strategy done s b → ∀ call,
    ∃ call' result s' result' b', TranslatedCall (matchedRevisions done) call call' ∧
      s.run listing ((localStore strategy).call call) = some (result, s') ∧
      (memoryStore.call call').eval (fun op b => serveMemory 0 op b) b = some (result', b')
  agree : ∀ listing done s b, TwoRuns listing strategy done s b → AllAgree done
  ordered : ∀ listing done s b, TwoRuns listing strategy done s b →
    OrderMatching (matchedRevisions done) ∧ (Revision.zero, Revision.zero) ∈ matchedRevisions done
  stays : ∀ listing before later s b, TwoRuns listing strategy (before ++ later) s b →
    matchedRevisions before <+: matchedRevisions (before ++ later)

theorem refinesMemory (router : Router strategy) (bootstraps : Bootstraps router fun _ => True) : RefinesMemory strategy where
  opens listing generator := by
    obtain ⟨s, opened, -⟩ := calm_bootstrap listing bootstraps (.fresh generator)
    exact ⟨s, opened⟩
  continues listing done s b runs call := by
    have both := runs.sideBySide bootstraps
    obtain ⟨call', translated⟩ := translatedCall_exists both.disk.minted.rising both.same.length_eq call
    obtain ⟨result, s', ran, -⟩ := calm_call listing both.disk call
    obtain ⟨result', b', ran', -⟩ := both.memory.calls 0 call'
    exact ⟨call', result, s', result', b', translated, ran, ran'⟩
  agree listing done s b runs := (runs.sideBySide bootstraps).agree
  ordered listing done s b runs := by
    have both := runs.sideBySide bootstraps
    exact ⟨orderMatching_revisionPairs both.disk.minted.rising both.memory.minted.rising,
      zero_mem_pairs _ _⟩
  stays listing before later s b runs := runs.matched_prefix bootstraps

end Refinement

/-- A store that opens no partition first has none to account for. -/
theorem bootstraps_none {P : Type} [Base32Nopad] {strategy : LocalPartitionStrategy P LocalPath}
    {router : Router strategy} {ids : AggregateId → Prop} (noneFirst : strategy.bootstrapPartitions = []) :
    Bootstraps router ids := by
  intro partition first
  rw [noneFirst] at first
  cases first

/-- Under every shipped strategy the store on local files refines the in-memory store. -/
theorem sqlite_refines_memory [UlidParser] [Base32Nopad] :
    RefinesMemory globalStrategy ∧ RefinesMemory typeStrategy ∧ RefinesMemory aggregateStrategy ∧
      (∀ buckets, RefinesMemory (hashedStrategy buckets)) ∧
      ∀ partitioner, RefinesMemory (partitionByStrategy partitioner) := by
  refine ⟨?_, ?_, ?_, fun buckets => ?_, fun partitioner => ?_⟩
  · exact refinesMemory globalRouter fun _ _ => ⟨⟨⟨""⟩, ""⟩, trivial, rfl⟩
  · exact refinesMemory typeRouter (bootstraps_none rfl)
  · exact refinesMemory aggregateRouter (bootstraps_none rfl)
  · exact refinesMemory (hashedRouter buckets) (bootstraps_none rfl)
  · exact refinesMemory (partitionByRouter partitioner) (bootstraps_none rfl)

/-! ### A stale expectation on both sides -/

section Stale

attribute [local instance] canonicalUlidParser canonicalBase32

/-- An order that must not exist yet. -/
def createOrder : EventStoreCall :=
  .publish firstOrder { expectedRevision := some .zero } [⟨⟨"created"⟩, ⟨.json, []⟩⟩]

theorem createOrder_translated (done : List Exchange) :
    TranslatedCall (matchedRevisions done) createOrder createOrder :=
  .publish (.some (.matched (zero_mem_pairs _ _)))

/-- Created twice on both sides, the order conflicts on both, at the revisions that are matched. -/
theorem created_once_on_both :
    ∃ first first' second second' s b,
      TwoRuns databasesOnly aggregateStrategy [⟨createOrder, first, createOrder, first'⟩,
        ⟨createOrder, second, createOrder, second'⟩] s b ∧
      ResultsAgree [(.zero, .zero), (.fromUlid 1, .fromUlid 101)] second second' ∧
      second matches .published (.error (.revisionConflict _ _)) := by
  have outcome : ((LocalDisk.fresh (.countingFrom 0)).run databasesOnly (bootstrap
        (localPartitionCatalog aggregateStrategy)
        (aggregateStrategy (D := LocalPath)).toPartitionStrategy)).bind (fun opened =>
      (opened.2.run databasesOnly ((localStore aggregateStrategy).call createOrder)).bind fun first =>
      (first.2.run databasesOnly ((localStore aggregateStrategy).call createOrder)).bind fun second =>
      ((memoryStore.call createOrder).eval (fun op b => serveMemory 0 op b)
        (Backing.new (.countingFrom 100))).bind fun first' =>
      ((memoryStore.call createOrder).eval (fun op b => serveMemory 0 op b) first'.2).map fun second' =>
        ((opened.1.isOk, second.1 matches .published (.error (.revisionConflict _ _))),
          (decide (first.2.cluster.generators 0).Unrefused, decide (second.2.cluster.generators 0).Unrefused,
            decide first'.2.generator.Unrefused, decide second'.2.generator.Unrefused),
          matchedRevisions [⟨createOrder, first.1, createOrder, first'.1⟩,
            ⟨createOrder, second.1, createOrder, second'.1⟩])) =
      some ((true, true), (true, true, true, true), [(.zero, .zero), (.fromUlid 1, .fromUlid 101)]) := by
    decide +kernel
  obtain ⟨⟨opened, s₀⟩, opening, rest⟩ := Option.bind_eq_some_iff.mp outcome
  obtain ⟨⟨first, s₁⟩, ran₁, rest⟩ := Option.bind_eq_some_iff.mp rest
  obtain ⟨⟨second, s₂⟩, ran₂, rest⟩ := Option.bind_eq_some_iff.mp rest
  obtain ⟨⟨first', b₁⟩, ran₁', rest⟩ := Option.bind_eq_some_iff.mp rest
  obtain ⟨⟨second', b₂⟩, ran₂', seen⟩ := Option.map_eq_some_iff.mp rest
  simp only [Prod.mk.injEq, decide_eq_true_eq] at seen
  obtain ⟨⟨isOk, conflicts⟩, ⟨calm₁, calm₂, calm₁', calm₂'⟩, revisions⟩ := seen
  cases opened with
  | error e => cases isOk
  | ok u =>
      have start : TwoRuns databasesOnly aggregateStrategy [] s₀ (.new (.countingFrom 100)) :=
        .opened opening
      have created := start.call (createOrder_translated _) ran₁ ran₁' calm₁ calm₁'
      have again := created.call (createOrder_translated _) ran₂ ran₂' calm₂ calm₂'
      have agree := sqlite_refines_memory.2.2.1.agree _ _ _ _ again [_] _ [] rfl
      refine ⟨first, first', second, second', s₂, b₂, again, ?_, conflicts⟩
      rw [← revisions]
      exact agree

end Stale
end WeeEvents.Sqlite
