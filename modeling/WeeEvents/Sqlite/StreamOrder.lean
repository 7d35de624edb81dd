import WeeEvents.Sqlite.Cluster
import WeeEvents.Sqlite.Catalogs

/-!
# Stream order under skewed clocks

Whatever the clocks of the instances, each database stays a log: its rows are
the committed batches in commit order, and every aggregate's revisions grow.
-/
namespace WeeEvents.Sqlite
open Foundation

section Trace

variable {P D Call Result : Type} [DecidableEq D]

/-- The batch that one event commits to database `d`. -/
def committedBatch (d : D) : Event (StoreOp P D) StoreOp.Res Call Result → Option Batch
  | .performed c _ (.tryPublishOnce conn id options raws) (.ok changeset) =>
      if conn = d then some ⟨c, id, options, raws, changeset.events⟩ else none
  | _ => none

/-- The batches committed to database `d`, in commit order. -/
def committedBatches (d : D) (trace : List (Event (StoreOp P D) StoreOp.Res Call Result)) :
    List Batch :=
  trace.filterMap (committedBatch d)

def committedLog (d : D) (trace : List (Event (StoreOp P D) StoreOp.Res Call Result)) : EventLog :=
  (committedBatches d trace).flatMap Batch.entries

theorem stream_committedLog (d : D) (trace : List (Event (StoreOp P D) StoreOp.Res Call Result))
    (id : AggregateId) :
    (committedLog d trace).stream id = streamOf (committedBatches d trace) id :=
  stream_flatMap_entries _ id

theorem committedBatches_concat (d : D)
    (trace : List (Event (StoreOp P D) StoreOp.Res Call Result))
    (event : Event (StoreOp P D) StoreOp.Res Call Result) :
    committedBatches d (trace ++ [event]) =
      committedBatches d trace ++ (committedBatch d event).toList := by
  cases h : committedBatch d event <;> simp [committedBatches, h]

theorem committedLog_concat (d : D) (trace : List (Event (StoreOp P D) StoreOp.Res Call Result))
    (event : Event (StoreOp P D) StoreOp.Res Call Result) :
    committedLog d (trace ++ [event]) =
      committedLog d trace ++ (committedBatch d event).toList.flatMap Batch.entries := by
  rw [committedLog, committedBatches_concat, List.flatMap_append]
  rfl

theorem committedBatch_other {d : D} {c : Nat} {call : Call} {op : StoreOp P D} {r : op.Res}
    (other : ∀ conn id options events, op ≠ .tryPublishOnce conn id options events) :
    committedBatch d (.performed c call op r : Event (StoreOp P D) StoreOp.Res Call Result) =
      none := by
  cases op <;> try rfl
  case tryPublishOnce conn id options events => exact absurd rfl (other conn id options events)

end Trace

section Run

variable {P D Call Result : Type} [DecidableEq P] [DecidableEq D] [UlidParser]
  {self : Call → Nat} {program : Call → Program (StoreOp P D) StoreOp.Res Result}
  {mayInvoke : List (Event (StoreOp P D) StoreOp.Res Call Result) → Call → Prop}
  {allowed : Cluster P D → Event (StoreOp P D) StoreOp.Res Call Result → Prop}
  {generators : Nat → Generator} {w w' : Cluster P D}

/-- One operation of any instance extends the log of each database by what it commits. -/
theorem Logged.serve {outside : Outside D} {i : Nat} {op : StoreOp P D} {r : op.Res} {c : Nat}
    {call : Call} {d : D} {log : EventLog} (logged : Logged (w.databases d).events log)
    (h : Sqlite.serve outside i w op = some (r, w')) :
    Logged (w'.databases d).events (log ++ (committedBatch d (.performed c call op r :
      Event (StoreOp P D) StoreOp.Res Call Result)).toList.flatMap Batch.entries) := by
  by_cases attempt : ∃ conn id options events, op = .tryPublishOnce conn id options events
  · obtain ⟨conn, id, options, events, rfl⟩ := attempt
    obtain ⟨generator, table, once, rfl⟩ := serve_tryPublishOnce h
    rcases eq_or_ne d conn with rfl | ne
    · cases r with
      | error e => simpa [committedBatch, tryPublishOnce_error once] using logged
      | ok changeset =>
          simpa [committedBatch, Batch.entries] using logged.tryPublishOnce once
    · cases r <;> simpa [committedBatch, ne.symm, Function.update_of_ne ne] using logged
  · have other : ∀ conn id options events, op ≠ .tryPublishOnce conn id options events :=
      fun conn id options events same => attempt ⟨conn, id, options, events, same⟩
    rw [committedBatch_other other, (serve_other other h).1 d]
    simpa using logged

/-- In every reachable state of any calls on any instances, each database is the
log of the batches committed to it. -/
theorem reachable_logged {p : Pool (clusterOf self program mayInvoke)}
    (reach : Pool.ReachableBy allowed (Cluster.initial generators) p) (d : D) :
    Logged (p.shared.databases d).events (committedLog d p.trace) := by
  refine reach.invariant (fun w trace => Logged (w.databases d).events (committedLog d trace))
    Logged.empty ?_ ?_ ?_
  · rintro w trace c call op r w' logged _ ⟨outside, served⟩
    rw [committedLog_concat]
    exact logged.serve served
  · intro w trace c call logged _
    rw [committedLog_concat]
    simpa [committedBatch] using logged
  · intro w trace c call result logged
    rw [committedLog_concat]
    simpa [committedBatch] using logged

/-- Each committed batch records the events of its call, one by one. -/
theorem reachable_batches {p : Pool (clusterOf self program mayInvoke)}
    (reach : Pool.ReachableBy allowed (Cluster.initial generators) p) (d : D) :
    ∀ batch ∈ committedBatches d p.trace, List.Forall₂
      (fun event raw => event.Carries batch.options.metadata raw) batch.events batch.raws := by
  refine reach.invariant (fun _ trace => ∀ batch ∈ committedBatches d trace, List.Forall₂
    (fun event raw => event.Carries batch.options.metadata raw) batch.events batch.raws)
    (by simp [committedBatches]) ?_ ?_ ?_
  · rintro w trace c call op r w' held _ ⟨outside, served⟩ batch member
    rw [committedBatches_concat] at member
    rcases List.mem_append.mp member with old | new
    · exact held batch old
    · by_cases attempt : ∃ conn id options events, op = .tryPublishOnce conn id options events
      · obtain ⟨conn, id, options, events, rfl⟩ := attempt
        obtain ⟨generator, table, once, _⟩ := serve_tryPublishOnce served
        cases r with
        | error e => simp [committedBatch] at new
        | ok changeset =>
            simp only [committedBatch, Option.mem_toList, Option.ite_none_right_eq_some,
              Option.some.injEq] at new
            obtain ⟨_, rfl⟩ := new
            exact (tryPublishOnce_rows once).2.1
      · have other : ∀ conn id options events, op ≠ .tryPublishOnce conn id options events :=
          fun conn id options events same => attempt ⟨conn, id, options, events, same⟩
        rw [committedBatch_other other] at new
        simp at new
  · intro w trace c call held _ batch member
    rw [committedBatches_concat] at member
    exact held batch (by simpa [committedBatch] using member)
  · intro w trace c call result held batch member
    rw [committedBatches_concat] at member
    exact held batch (by simpa [committedBatch] using member)

end Run

/-- Commit order is revision order, and so what is loaded is the commit order. -/
theorem stream_order_under_skewed_clocks {P D : Type} [LinearOrder P] [DecidableEq D] [UlidParser]
    {strategies : Nat → PartitionStrategy P} {catalogs : Nat → PartitionCatalog P D}
    {generators : Nat → Generator} {p : Pool (cluster strategies catalogs)}
    (reach : Pool.Reachable (Cluster.initial generators) p) (d : D) (id : AggregateId) :
    Increasing RecordedEvent.revision (streamOf (committedBatches d p.trace) id) ∧
      (∀ batch ∈ committedBatches d p.trace, List.Forall₂
        (fun event raw => event.Carries batch.options.metadata raw) batch.events batch.raws) ∧
      ∃ aggregate, loadFromConnection (p.shared.databases d).events id = .ok aggregate ∧
        aggregate.events = streamOf (committedBatches d p.trace) id ∧
        aggregate.revision.text = ((p.shared.databases d).events.maxRevision id).getD
          zeroRevisionText := by
  have logged := reachable_logged reach d
  have stream := stream_committedLog d p.trace id
  refine ⟨stream ▸ logged.increasing id, reachable_batches reach d,
    Aggregate.fromEvents id (streamOf (committedBatches d p.trace) id), ?_, rfl, ?_⟩
  · rw [← stream]
    exact logged.load
  · rw [← stream]
    exact logged.coalesceMax.symm

/-! ### Two instances whose clocks disagree -/

section Skewed

attribute [local instance] canonicalUlidParser

/-- The first instance mints from 100 on, the second from 0 on. -/
def skewedGenerators (i : Nat) : Generator :=
  if i = 0 then .countingFrom 100 else .countingFrom 0

/-- Instances of the single-target store on one database. -/
abbrev sharedCluster : System :=
  cluster (fun _ => (globalStrategy (D := Unit)).toPartitionStrategy)
    (fun _ => singleTargetCatalog (D := Unit))

def sharedId : AggregateId := ⟨⟨"counter"⟩, "a"⟩

def sharedPublish (i : Nat) (options : PublishOptions) : Nat × StoreCall :=
  (i, .publish sharedId options [⟨⟨"incremented"⟩, ⟨.json, []⟩⟩])

/-- The second publish is behind the first in every attempt, the third is not. -/
def skewedRun : Option (List StoreResult × Cluster Unit Unit) :=
  Pool.runInOrder (S := sharedCluster) (answeredBy Prod.fst { database := () }) 0
    [sharedPublish 0 {}, sharedPublish 1 {}, sharedPublish 0 {}] (Cluster.initial skewedGenerators)

theorem skewed_stream_order : ∃ p : Pool sharedCluster,
    Pool.Reachable (Cluster.initial skewedGenerators) p ∧
      ((p.shared.databases ()).events.rowsOf sharedId).length = 2 ∧
      Increasing RecordedEvent.revision (streamOf (committedBatches () p.trace) sharedId) := by
  have two : (skewedRun.map fun run => ((run.2.databases ()).events.rowsOf sharedId).length) =
      some 2 := by decide +kernel
  obtain ⟨⟨results, w'⟩, run, length⟩ := Option.map_eq_some_iff.mp two
  obtain ⟨p, reach, rfl, _⟩ := reachable_inOrder _ run
  exact ⟨p, reach, length, (stream_order_under_skewed_clocks reach () sharedId).1⟩

end Skewed
end WeeEvents.Sqlite
