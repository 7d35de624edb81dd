import WeeEvents.Sqlite.Attempts
import WeeEvents.Sqlite.StreamOrder

/-!
# All or nothing, exactly once

A publish call among any others and under any failures: its own operations are
looked at one by one, each from whatever state the others left.
-/
namespace WeeEvents.Sqlite
open Foundation

variable {P D : Type}

/-- One operation of a call, with the cluster before and after it. -/
abbrev ClusterStep (P D : Type) : Type := OwnStep (Cluster P D) (StoreOp P D) StoreOp.Res

namespace ClusterStep

/-- The operation leaves the events of every database as they were. -/
def LeavesEvents (step : ClusterStep P D) : Prop :=
  ∀ d, (step.after.databases d).events = (step.before.databases d).events

/-- The operation appends rows to one database and leaves the others. -/
def AddsRows (step : ClusterStep P D) (rows : List Row) : Prop :=
  ∃ d, (step.after.databases d).events.rows = (step.before.databases d).events.rows ++ rows ∧
    ∀ other, other ≠ d → (step.after.databases other).events = (step.before.databases other).events

/-- The change set of a publish attempt that committed. -/
def commits (step : ClusterStep P D) : Option ChangeSet :=
  match step.op, step.response with
  | .tryPublishOnce _ _ _ _, .ok changeset => some changeset
  | _, _ => none

/-- The aggregate that was loaded, and the database it was read from. -/
def loads (step : ClusterStep P D) : Option (D × AggregateId × Aggregate) :=
  match step.op, step.response with
  | .loadFromConnection conn id, .ok aggregate => some (conn, id, aggregate)
  | _, _ => none

end ClusterStep

/-! ### What the discipline learned is what the operations did -/

section Learned

variable {id : AggregateId} {options : PublishOptions} {events : List RawEvent}
  {k : PublishKnowledge}

theorem learned_committed (steps : List (ClusterStep P D)) :
    ((publishDiscipline id options events).learned k steps).committed =
      k.committed ++ steps.filterMap ClusterStep.commits := by
  induction steps generalizing k with
  | nil => simp [Discipline.learned]
  | cons step steps ih =>
      obtain ⟨before, op, response, after⟩ := step
      have one : (PublishKnowledge.learn k op response).committed =
          k.committed ++ (ClusterStep.commits ⟨before, op, response, after⟩).toList := by
        unfold PublishKnowledge.learn
        split <;> simp_all [ClusterStep.commits]
      have rest := ih (k := PublishKnowledge.learn k op response)
      rw [one, List.append_assoc] at rest
      simp only [Discipline.learned, List.foldl_cons, publishDiscipline] at rest ⊢
      rw [rest, List.filterMap_cons]
      cases ClusterStep.commits ⟨before, op, response, after⟩ <;> rfl

theorem learned_loaded {aggregate : Aggregate} (steps : List (ClusterStep P D))
    (h : ((publishDiscipline id options events).learned k steps).loaded = some aggregate) :
    k.loaded = some aggregate ∨
      ∃ step ∈ steps, ∃ conn id', step.loads = some (conn, id', aggregate) := by
  refine Discipline.learned_from (Q := fun k : PublishKnowledge => k.loaded = some aggregate) ?_ steps h
  rintro k ⟨before, op, response, after⟩ now
  simp only [publishDiscipline, PublishKnowledge.learn] at now
  split at now
  all_goals try exact .inl now
  next conn id' loaded =>
    cases now
    exact .inr ⟨conn, id', rfl⟩

theorem loads_id {step : ClusterStep P D} {conn : D} {id' : AggregateId} {aggregate : Aggregate}
    (may : publishMay id options events k step.op)
    (loaded : step.loads = some (conn, id', aggregate)) : id' = id := by
  obtain ⟨before, op, response, after⟩ := step
  unfold ClusterStep.loads at loaded
  split at loaded
  · next isOp isResponse =>
      cases isOp
      cases isResponse
      cases loaded
      exact may.1
  · cases loaded

end Learned

/-! ### The theorem -/

section Own

variable [DecidableEq P] [DecidableEq D] [UlidParser] {self : Nat} {id : AggregateId}
  {options : PublishOptions} {events : List RawEvent} {k : PublishKnowledge}

theorem leavesEvents_of_commits_none {step : ClusterStep P D}
    (served : InstanceStep self step.before step.op step.response step.after)
    (nothing : step.commits = none) : step.LeavesEvents := by
  obtain ⟨before, op, response, after⟩ := step
  obtain ⟨outside, served⟩ := served
  dsimp only at served
  by_cases attempt : ∃ conn id options events, op = .tryPublishOnce conn id options events
  · obtain ⟨conn, id, options, events, rfl⟩ := attempt
    obtain ⟨generator, table, once, rfl⟩ := serve_tryPublishOnce served
    cases response with
    | ok changeset => cases nothing
    | error e =>
        intro d
        rcases eq_or_ne d conn with rfl | ne
        · simp [tryPublishOnce_error once]
        · simp [Function.update_of_ne ne]
  · exact (serve_other (fun conn id options events same =>
      attempt ⟨conn, id, options, events, same⟩) served).1

theorem addsRows_of_commits {step : ClusterStep P D} {changeset : ChangeSet}
    (served : InstanceStep self step.before step.op step.response step.after)
    (may : publishMay id options events k step.op) (committed : step.commits = some changeset) :
    step.AddsRows (changeset.events.map (Row.store id)) ∧
      List.Forall₂ (fun event raw => event.Carries options.metadata raw) changeset.events events ∧
      changeset.aggregateId = id ∧ changeset.revision = lastRevision changeset.events := by
  obtain ⟨before, op, response, after⟩ := step
  obtain ⟨outside, served⟩ := served
  unfold ClusterStep.commits at committed
  split at committed
  · next conn id' options' events' changeset' isOp isResponse =>
      cases isOp
      cases isResponse
      cases committed
      obtain ⟨rfl, rfl, rfl, _⟩ := may
      dsimp only at served
      obtain ⟨generator, table, once, rfl⟩ := serve_tryPublishOnce served
      obtain ⟨rows, carries, sameId, revision⟩ := tryPublishOnce_rows once
      refine ⟨⟨conn, ?_, fun other ne => ?_⟩, carries, sameId, revision⟩
      · simpa using rows
      · simp [Function.update_of_ne ne]
  · cases committed

theorem loads_revision {step : ClusterStep P D} {conn : D} {id' : AggregateId}
    {aggregate : Aggregate}
    (served : InstanceStep self step.before step.op step.response step.after)
    (loaded : step.loads = some (conn, id', aggregate)) :
    Revision.fromStr (coalesceMax (step.before.databases conn).events id') =
      .ok aggregate.revision := by
  obtain ⟨before, op, response, after⟩ := step
  obtain ⟨outside, served⟩ := served
  unfold ClusterStep.loads at loaded
  split at loaded
  · next conn' id'' aggregate' isOp isResponse =>
      cases isOp
      cases isResponse
      cases loaded
      simp only [serve] at served
      split at served
      · cases served
      · simp only [Option.some.injEq, Prod.mk.injEq] at served
        exact loadFromConnection_revision served.1
  · cases loaded

/-- Whatever fails and whoever writes in between, a publish call that returns a
change set appended exactly its rows, in one operation; one that returns an error
appended nothing. -/
theorem publish_all_or_nothing_exactly_once {strategy : PartitionStrategy P}
    {catalog : PartitionCatalog P D} {steps : List (ClusterStep P D)}
    {result : Except Error ChangeSet}
    (run : (publish strategy catalog id options events).Performs (InstanceStep self) steps result) :
    match result with
    | .error _ => ∀ step ∈ steps, step.LeavesEvents
    | .ok changeset =>
        changeset.aggregateId = id ∧
        List.Forall₂ (fun event raw => event.Carries options.metadata raw)
          changeset.events events ∧
        (events ≠ [] → changeset.revision = lastRevision changeset.events ∧
          ∃ earlier own later, steps = earlier ++ own :: later ∧
            own.AddsRows (changeset.events.map (Row.store id)) ∧
            ∀ step ∈ earlier ++ later, step.LeavesEvents) ∧
        (events = [] → (∀ step ∈ steps, step.LeavesEvents) ∧
          ∃ step ∈ steps, ∃ d, Revision.fromStr (coalesceMax (step.before.databases d).events id) =
            .ok changeset.revision) := by
  obtain ⟨⟨inner, known, rfl⟩, each⟩ := (obeys_publish strategy catalog (k := {}) rfl).performs run
  have served : ∀ step ∈ steps,
      InstanceStep self step.before step.op step.response step.after ∧
        ∃ k, publishMay id options events k step.op := by
    intro step member
    obtain ⟨earlier, later, split⟩ := List.append_of_mem member
    exact ⟨(each earlier step later split).1, _, (each earlier step later split).2⟩
  have quiet : steps.filterMap ClusterStep.commits = [] → ∀ step ∈ steps, step.LeavesEvents :=
    fun none step member => leavesEvents_of_commits_none (served step member).1
      (List.filterMap_eq_nil_iff.mp none step member)
  cases inner with
  | error e =>
      have none := known.1
      rw [learned_committed, List.nil_append] at none
      exact quiet none
  | ok changeset =>
      rcases known with ⟨nonempty, committed⟩ | ⟨rfl, committed, aggregate, loaded, rfl⟩
      · rw [learned_committed, List.nil_append] at committed
        obtain ⟨earlier, own, later, rfl, before, now, after⟩ :=
          List.filterMap_eq_cons_iff.mp committed
        obtain ⟨stepped, k, may⟩ := served own (by simp)
        obtain ⟨adds, carries, sameId, revision⟩ := addsRows_of_commits stepped may now
        refine ⟨sameId, carries, fun _ => ⟨revision, earlier, own, later, rfl, adds, ?_⟩,
          fun empty => absurd empty nonempty⟩
        intro step member
        rcases List.mem_append.mp member with early | late
        · exact leavesEvents_of_commits_none (served step (by simp [early])).1 (before step early)
        · exact leavesEvents_of_commits_none (served step (by simp [late])).1
            (List.filterMap_eq_nil_iff.mp after step late)
      · rw [learned_committed, List.nil_append] at committed
        refine ⟨rfl, .nil, fun nonempty => absurd rfl nonempty, fun _ => ⟨quiet committed, ?_⟩⟩
        rcases learned_loaded steps loaded with initially | ⟨step, member, conn, id', loads⟩
        · cases initially
        · obtain ⟨stepped, k, may⟩ := served step member
          obtain rfl := loads_id may loads
          exact ⟨step, member, conn, loads_revision stepped loads⟩

end Own

section Once

attribute [local instance] canonicalUlidParser

/-- A batch of three, through the store of the first instance on an otherwise unused cluster. -/
def soloPublish : Program (StoreOp Unit Unit) StoreOp.Res (Except Error ChangeSet) :=
  publish (globalStrategy (D := Unit)).toPartitionStrategy (singleTargetCatalog (D := Unit)) sharedId
    {} [⟨⟨"incremented"⟩, ⟨.json, []⟩⟩, ⟨⟨"doubled"⟩, ⟨.json, []⟩⟩, ⟨⟨"incremented"⟩, ⟨.json, []⟩⟩]

/-- Until something has been drawn, the second insert of an attempt finds the database busy. -/
def busyAtFirst (w : Cluster Unit Unit) : Outside Unit where
  attempt :=
    if (w.generators 0).drawn = 0 then
      { insert := fun index => if index = 1 then some (.sqliteFailure 5 "database is locked") else none }
    else {}
  database := ()

def soloRun : Option (Except Error ChangeSet × Cluster Unit Unit) :=
  soloPublish.eval (fun op w => serve (busyAtFirst w) 0 w op) (Cluster.initial skewedGenerators)

/-- The first attempt inserts one row and is rolled back; the second keeps what it draws, from the
fifth identifier on. -/
theorem published_exactly_once : ∃ (steps : List (ClusterStep Unit Unit)) (changeset : ChangeSet),
    soloPublish.Performs (InstanceStep 0) steps (.ok changeset) ∧
      changeset.events.map RecordedEvent.revision =
        [Revision.fromUlid 105, Revision.fromUlid 107, Revision.fromUlid 109] ∧
      changeset.revision = lastRevision changeset.events ∧
      ∃ (earlier : List (ClusterStep Unit Unit)) (own : ClusterStep Unit Unit)
        (later : List (ClusterStep Unit Unit)), steps = earlier ++ own :: later ∧
        own.AddsRows (changeset.events.map (Row.store sharedId)) ∧
        ∀ step ∈ earlier ++ later, step.LeavesEvents := by
  have succeeds : (soloRun.bind fun run => run.1.toOption.map fun changeset =>
      changeset.events.map RecordedEvent.revision) =
        some [Revision.fromUlid 105, Revision.fromUlid 107, Revision.fromUlid 109] := by decide +kernel
  obtain ⟨⟨result, w'⟩, run, ok⟩ := Option.bind_eq_some_iff.mp succeeds
  have alone : Program.Runs (InstanceStep 0) (Cluster.initial skewedGenerators) soloPublish result w' :=
    (Program.runs_iff_eval.mpr run).mono fun _ _ _ _ served => ⟨_, served⟩
  obtain ⟨steps, performs⟩ := alone.performs
  cases result with
  | error e => cases ok
  | ok changeset =>
      obtain ⟨_, _, appended, _⟩ := publish_all_or_nothing_exactly_once performs
      exact ⟨steps, changeset, performs, Option.some.inj ok, appended (by simp)⟩

end Once
end WeeEvents.Sqlite
