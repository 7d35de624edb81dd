import WeeEvents.Store
import WeeEvents.Foundation.Sequence

/-!
# Store calls as single steps

What a call of the trait does to the log of all streams when nothing else runs.
The services and projections are written over these calls; each store takes part
through a relation between its states and the log that its programs keep.
-/
namespace WeeEvents
open Foundation

abbrev EventStoreCall.Res : EventStoreCall → Type
  | .load _ => Except Error Aggregate
  | .publish _ _ _ => Except Error ChangeSet

/-- A program that calls the event store it is given. -/
abbrev ClientProgram (α : Type) : Type := Program EventStoreCall EventStoreCall.Res α

def eventStoreCall (call : EventStoreCall) : ClientProgram call.Res := .perform call

/-- Every stream is strictly increasing, and no revision is zero. -/
structure EventLog.Ordered (log : EventLog) : Prop where
  increasing : ∀ id, Increasing RecordedEvent.revision (log.stream id)
  nonzero : ∀ entry ∈ log, entry.2.revision ≠ Revision.zero

theorem EventLog.ordered_nil : EventLog.Ordered [] := ⟨fun _ => Increasing.nil, by simp⟩

section Streams

variable {stream seen seen' : List RecordedEvent}

/-- Among the prefixes of one stream the last revision says which one it is. -/
theorem eq_of_lastRevision (increasing : Increasing RecordedEvent.revision stream)
    (nonzero : ∀ event ∈ stream, event.revision ≠ Revision.zero) (before : seen <+: stream)
    (before' : seen' <+: stream) (same : lastRevision seen = lastRevision seen') : seen = seen' := by
  apply increasing.eq_of_prefix before before'
  have nonzeroLast : ∀ {part : List RecordedEvent} {e}, part <+: stream →
      part.getLast? = some e → e.revision ≠ Revision.zero := by
    intro part e prior last
    exact nonzero e (prior.subset (List.mem_of_getLast? last))
  unfold lastRevision at same
  cases last : seen.getLast? with
  | none =>
      cases last' : seen'.getLast? with
      | none => rfl
      | some e' =>
          rw [last, last'] at same
          exact absurd same.symm (nonzeroLast before' last')
  | some e =>
      cases last' : seen'.getLast? with
      | none =>
          rw [last, last'] at same
          exact absurd same (nonzeroLast before last)
      | some e' =>
          rw [last, last'] at same
          exact congrArg some same

theorem lastRevision_le (increasing : Increasing RecordedEvent.revision stream)
    (before : seen <+: stream) : lastRevision seen ≤ lastRevision stream := by
  cases last : seen.getLast? with
  | none =>
      rw [List.getLast?_eq_none_iff.mp last]
      exact Revision.zero_le _
  | some e =>
      have member : e ∈ stream := before.subset (List.mem_of_getLast? last)
      cases final : stream.getLast? with
      | none =>
          rw [List.getLast?_eq_none_iff.mp final] at member
          cases member
      | some e' =>
          simp only [lastRevision, last, final]
          exact increasing.le_last final e member

end Streams

/-- A log whose revisions increase as a whole, as those of one store instance do. -/
theorem EventLog.ordered_of_increasing {log : EventLog}
    (increasing : Increasing (fun entry : AggregateId × RecordedEvent => entry.2.revision) log)
    (nonzero : ∀ entry ∈ log, entry.2.revision ≠ Revision.zero) : log.Ordered := by
  refine ⟨fun id => ?_, nonzero⟩
  have part : Increasing (fun entry : AggregateId × RecordedEvent => entry.2.revision)
      (log.filter (·.1 == id)) := increasing.sublist List.filter_sublist
  exact List.pairwise_map.mpr part

namespace EventLog.Ordered

variable {log : EventLog} {id : AggregateId} {seen seen' : List RecordedEvent}

theorem stream_nonzero (h : log.Ordered) :
    ∀ event ∈ log.stream id, event.revision ≠ Revision.zero := by
  intro event member
  exact h.nonzero (id, event) (EventLog.mem_stream.mp member)

theorem eq_of_lastRevision (h : log.Ordered) (before : seen <+: log.stream id)
    (before' : seen' <+: log.stream id) (same : lastRevision seen = lastRevision seen') :
    seen = seen' :=
  WeeEvents.eq_of_lastRevision (h.increasing id) h.stream_nonzero before before' same

theorem lastRevision_le (h : log.Ordered) (before : seen <+: log.stream id) :
    lastRevision seen ≤ lastRevision (log.stream id) :=
  WeeEvents.lastRevision_le (h.increasing id) before

/-- Of two prefixes of a stream the one with the later revision contains the other. -/
theorem prefix_of_lastRevision_le (h : log.Ordered) (before : seen <+: log.stream id)
    (before' : seen' <+: log.stream id) (older : lastRevision seen ≤ lastRevision seen') :
    seen <+: seen' := by
  rcases List.prefix_or_prefix_of_prefix before before' with shorter | longer
  · exact shorter
  · have newer : lastRevision seen' ≤ lastRevision seen :=
      WeeEvents.lastRevision_le ((h.increasing id).of_isPrefix before) longer
    rw [h.eq_of_lastRevision before before' (le_antisymm older newer)]

end EventLog.Ordered

/-- One call, as any store may answer it. -/
inductive StoreStep : EventLog → (call : EventStoreCall) → call.Res → EventLog → Prop
  | loaded {log : EventLog} {id : AggregateId} :
      StoreStep log (.load id) (.ok (Aggregate.fromEvents id (log.stream id))) log
  | loadFailed {log : EventLog} {id : AggregateId} {e : Error} :
      StoreStep log (.load id) (.error e) log
  | appended {log : EventLog} {id : AggregateId} {options : PublishOptions} {raws : List RawEvent}
      {events : List RecordedEvent} : raws ≠ [] →
      List.Forall₂ (fun event raw => event.Carries options.metadata raw) events raws →
      (∀ e, options.expectedRevision = some e → e = lastRevision (log.stream id)) →
      EventLog.Ordered (log ++ entries id events) →
      StoreStep log (.publish id options raws) (.ok ⟨id, lastRevision events, events⟩)
        (log ++ entries id events)
  | nothing {log : EventLog} {id : AggregateId} {options : PublishOptions} :
      StoreStep log (.publish id options []) (.ok ⟨id, lastRevision (log.stream id), []⟩) log
  | publishFailed {log : EventLog} {id : AggregateId} {options : PublishOptions}
      {raws : List RawEvent} {e : Error} : StoreStep log (.publish id options raws) (.error e) log

theorem StoreStep.ordered {log log' : EventLog} {call : EventStoreCall} {r : call.Res}
    (step : StoreStep log call r log') (h : log.Ordered) : log'.Ordered := by
  cases step with
  | appended _ _ _ ordered => exact ordered
  | loaded => exact h
  | loadFailed => exact h
  | nothing => exact h
  | publishFailed => exact h

theorem StoreStep.load_ok {log log' : EventLog} {id : AggregateId} {aggregate : Aggregate}
    (step : StoreStep log (.load id) (.ok aggregate) log') :
    aggregate = Aggregate.fromEvents id (log.stream id) ∧ log' = log := by
  cases step
  exact ⟨rfl, rfl⟩

theorem StoreStep.load_log {log log' : EventLog} {id : AggregateId} {r : Except Error Aggregate}
    (step : StoreStep log (.load id) r log') : log' = log := by
  cases step with
  | loaded => rfl
  | loadFailed => rfl

theorem StoreStep.publish_error {log log' : EventLog} {id : AggregateId} {options : PublishOptions}
    {raws : List RawEvent} {e : Error} (step : StoreStep log (.publish id options raws) (.error e) log') :
    log' = log := by
  cases step
  rfl

/-- No call takes an event out of a stream. -/
theorem StoreStep.stream_grows {log log' : EventLog} {call : EventStoreCall} {r : call.Res}
    (step : StoreStep log call r log') (id : AggregateId) : log.stream id <+: log'.stream id := by
  cases step with
  | appended =>
      rw [EventLog.stream_append]
      exact List.prefix_append _ _
  | loaded => exact List.prefix_refl _
  | loadFailed => exact List.prefix_refl _
  | nothing => exact List.prefix_refl _
  | publishFailed => exact List.prefix_refl _

/-- A publish only ever appends to the stream of its aggregate, and says what it appended. -/
theorem StoreStep.publish_ok {log log' : EventLog} {id : AggregateId} {options : PublishOptions}
    {raws : List RawEvent} {changeset : ChangeSet}
    (step : StoreStep log (.publish id options raws) (.ok changeset) log') :
    log' = log ++ entries id changeset.events ∧
      List.Forall₂ (fun event raw => event.Carries options.metadata raw) changeset.events raws := by
  cases step with
  | appended _ carries => exact ⟨rfl, carries⟩
  | nothing => exact ⟨(List.append_nil log).symm, .nil⟩

/-- A publish of events that expected a revision found it at the end of the stream. -/
theorem StoreStep.publish_expected {log log' : EventLog} {id : AggregateId} {options : PublishOptions}
    {raws : List RawEvent} {changeset : ChangeSet} {expected : Revision} (nonempty : raws ≠ [])
    (expecting : options.expectedRevision = some expected)
    (step : StoreStep log (.publish id options raws) (.ok changeset) log') :
    expected = lastRevision (log.stream id) := by
  cases step with
  | appended _ _ met _ => exact met expected expecting
  | nothing => exact absurd rfl nonempty

/-- The program a store runs for a call. -/
def EventStore.body {Op : Type} {Res : Op → Type} (store : EventStore Op Res) :
    (call : EventStoreCall) → Program Op Res call.Res
  | .load id => store.load id
  | .publish id options events => store.publish id options events

/-- A store at work: its states between calls, what its operations may do, and
the log each state stands for. -/
structure StoreRuntime where
  Op : Type
  Res : Op → Type
  State : Type
  store : EventStore Op Res
  step : State → (op : Op) → Res op → State → Prop
  Represents : State → EventLog → Prop
  refines : ∀ s log call r s', Represents s log → Program.Runs step s (store.body call) r s' →
    ∃ log', Represents s' log' ∧ StoreStep log call r log'

/-- A client's program run on the store, with no one else at work. -/
def StoreRuntime.Runs (runtime : StoreRuntime) {α : Type} (s : runtime.State) (p : ClientProgram α)
    (a : α) (s' : runtime.State) : Prop :=
  Program.Runs runtime.step s (p.implement runtime.store.body) a s'

/-- Whatever a client does on a store it does on the log the store stands for. -/
theorem StoreRuntime.Runs.onLog {runtime : StoreRuntime} {α : Type} {s s' : runtime.State}
    {p : ClientProgram α} {a : α} {log : EventLog} (represents : runtime.Represents s log)
    (run : runtime.Runs s p a s') :
    ∃ log', runtime.Represents s' log' ∧ Program.Runs StoreStep log p a log' :=
  Program.Runs.of_implement runtime.refines represents run

end WeeEvents
