import WeeEvents.Event

/-!
# Logs and batches

The abstract contents of a store: one log of `(aggregate, event)` entries in the
order they were written, and the batches of the successful publishes that wrote
them. An aggregate's stream is its entries in log order.
-/
namespace WeeEvents

abbrev EventLog := List (AggregateId × RecordedEvent)

/-- The stream of one aggregate: its entries in log order. -/
def EventLog.stream (log : EventLog) (id : AggregateId) : List RecordedEvent :=
  (log.filter (·.1 == id)).map Prod.snd

/-- The entries of one committed batch. -/
def entries (id : AggregateId) (events : List RecordedEvent) : EventLog :=
  events.map fun event => (id, event)

@[simp] theorem EventLog.stream_nil (id : AggregateId) : EventLog.stream [] id = [] := rfl

@[simp] theorem EventLog.stream_append (log more : EventLog) (id : AggregateId) :
    EventLog.stream (log ++ more) id = log.stream id ++ EventLog.stream more id := by
  simp only [EventLog.stream, List.filter_append, List.map_append]

@[simp] theorem stream_entries (id : AggregateId) (events : List RecordedEvent) :
    EventLog.stream (entries id events) id = events := by
  simp only [EventLog.stream, entries, List.filter_map, Function.comp_def, beq_self_eq_true,
    List.filter_true, List.map_map, List.map_id']

theorem stream_entries_ne {id other : AggregateId} (ne : other ≠ id) (events : List RecordedEvent) :
    EventLog.stream (entries id events) other = [] := by
  simp [EventLog.stream, entries, List.filter_map, Function.comp_def, ne.symm]

theorem EventLog.mem_stream {log : EventLog} {id : AggregateId} {event : RecordedEvent} :
    event ∈ log.stream id ↔ (id, event) ∈ log := by
  simp [EventLog.stream]

/-- One successful publish: the call, its arguments, what it recorded. -/
structure Batch where
  call : Nat
  aggregateId : AggregateId
  options : PublishOptions
  raws : List RawEvent
  events : List RecordedEvent

def Batch.entries (batch : Batch) : EventLog := WeeEvents.entries batch.aggregateId batch.events

/-- The events of one aggregate in a sequence of batches, batch after batch. -/
def streamOf (batches : List Batch) (id : AggregateId) : List RecordedEvent :=
  (batches.filter (·.aggregateId == id)).flatMap Batch.events

theorem stream_flatMap_entries (batches : List Batch) (id : AggregateId) :
    EventLog.stream (batches.flatMap Batch.entries) id = streamOf batches id := by
  induction batches with
  | nil => rfl
  | cons batch batches ih =>
      rw [List.flatMap_cons, EventLog.stream_append, ih, Batch.entries]
      rcases eq_or_ne batch.aggregateId id with rfl | ne
      · simp [streamOf]
      · rw [stream_entries_ne ne.symm]
        simp [streamOf, ne]

@[simp] theorem streamOf_nil (id : AggregateId) : streamOf [] id = [] := rfl

@[simp] theorem streamOf_append (batches more : List Batch) (id : AggregateId) :
    streamOf (batches ++ more) id = streamOf batches id ++ streamOf more id := by
  simp only [streamOf, List.filter_append, List.flatMap_append]

theorem streamOf_singleton (batch : Batch) (id : AggregateId) :
    streamOf [batch] id = if batch.aggregateId = id then batch.events else [] := by
  by_cases same : batch.aggregateId = id <;> simp [streamOf, same]

/-- A batch that may come after the earlier ones: it records the events of its
call, and what the call expected was the revision of the stream. -/
structure Batch.Follows (batch : Batch) (earlier : List Batch) : Prop where
  nonempty : batch.raws ≠ []
  carries : List.Forall₂ (fun event raw => event.Carries batch.options.metadata raw)
    batch.events batch.raws
  expected : ∀ e, batch.options.expectedRevision = some e →
    e = lastRevision (streamOf earlier batch.aggregateId)

theorem Batch.Follows.events_ne_nil {batch : Batch} {earlier : List Batch}
    (h : batch.Follows earlier) : batch.events ≠ [] := by
  intro empty
  have carries := h.carries
  rw [empty, List.forall₂_nil_left_iff] at carries
  exact h.nonempty carries

/-- The events of one batch stand together in the stream. -/
theorem infix_streamOf {batches : List Batch} {batch : Batch} (h : batch ∈ batches) :
    batch.events <:+: streamOf batches batch.aggregateId := by
  obtain ⟨earlier, later, rfl⟩ := List.append_of_mem h
  refine ⟨streamOf earlier batch.aggregateId, streamOf later batch.aggregateId, ?_⟩
  rw [← List.singleton_append, streamOf_append, streamOf_append, streamOf_singleton, if_pos rfl,
    List.append_assoc]

/-- The stream of a prefix of the batches is a prefix of the stream. -/
theorem streamOf_prefix {before batches : List Batch} (h : before <+: batches) (id : AggregateId) :
    streamOf before id <+: streamOf batches id := by
  obtain ⟨later, rfl⟩ := h
  rw [streamOf_append]
  exact List.prefix_append _ _

end WeeEvents
