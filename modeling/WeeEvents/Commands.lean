import WeeEvents.Service
import WeeEvents.Foundation.Pool

/-!
# Clients that load, decide and publish

Clients of one store: they load aggregates, publish what a handler made of a
rendered entity, and append without an expectation. What every store promises of
such a run is a list of batches that accounts for all its results. From that and
from increasing revisions it follows that no update is lost.
-/
namespace WeeEvents
open Foundation

/-! ### Histories -/

section History

variable {Op : Type} {Res : Op → Type} {Call Result : Type}

/-- The result of a request, as the batches committed so far settle it. -/
def Request.Settled (done : List Batch) (c : Nat) : Request Result → Result → Prop
  | .answered result, r => r = result
  | .storeCall call respond, r => ∃ result, WeeEvents.Settled c done call result ∧ r = respond result

/-- Batches that account for a run: each was asked for by a call that began, no
call has two, each may follow those before it, and every result agrees. -/
structure History (behave : Call → Request Result) (trace : List (Event Op Res Call Result))
    (batches : List Batch) : Prop where
  asked : ∀ batch ∈ batches, ∃ call, .invoked batch.call call ∈ trace ∧
    (behave call).call? = some (.publish batch.aggregateId batch.options batch.raws)
  once : (batches.map Batch.call).Nodup
  follows : ∀ earlier batch later, batches = earlier ++ batch :: later → batch.Follows earlier
  complete : ∀ c call r, .returned c call r ∈ trace → (behave call).Settled batches c r

theorem Settled.absent_of_error {c : Nat} {done : List Batch} {call : EventStoreCall} {e : Error}
    (h : Settled c done call (.published (.error e))) : c ∉ done.map Batch.call := by
  cases h with
  | publishFailed absent => exact absent

theorem Request.Settled.append {done more : List Batch} {c : Nat} {request : Request Result}
    {r : Result} (h : request.Settled done c r) (other : c ∉ more.map Batch.call) :
    request.Settled (done ++ more) c r := by
  cases request with
  | answered result => exact h
  | storeCall call respond =>
      obtain ⟨result, settled, same⟩ := h
      exact ⟨result, settled.append other, same⟩

variable {behave : Call → Request Result} {trace : List (Event Op Res Call Result)}
  {event : Event Op Res Call Result} {batches : List Batch} {batch : Batch} {c : Nat} {call : Call}
  {r : Result}

theorem History.nil (behave : Call → Request Result) :
    History behave ([] : List (Event Op Res Call Result)) [] where
  asked batch member := by cases member
  once := List.nodup_nil
  follows earlier batch later split := by simp at split
  complete c call r member := by cases member

/-- An event that returns nothing and commits nothing. -/
theorem History.extend (h : History behave trace batches)
    (open_ : ∀ c call r, event ≠ .returned c call r) : History behave (trace ++ [event]) batches where
  asked batch member := by
    obtain ⟨call, invoked, asks⟩ := h.asked batch member
    exact ⟨call, List.mem_append_left _ invoked, asks⟩
  once := h.once
  follows := h.follows
  complete c call r returned := by
    rcases List.mem_append.mp returned with old | new
    · exact h.complete c call r old
    · exact absurd (List.mem_singleton.mp new).symm (open_ c call r)

theorem History.finish (h : History behave trace batches)
    (settled : (behave call).Settled batches c r) :
    History behave (trace ++ [.returned c call r]) batches where
  asked batch member := by
    obtain ⟨call, invoked, asks⟩ := h.asked batch member
    exact ⟨call, List.mem_append_left _ invoked, asks⟩
  once := h.once
  follows := h.follows
  complete c' call' r' returned := by
    rcases List.mem_append.mp returned with old | new
    · exact h.complete c' call' r' old
    · rw [List.mem_singleton] at new
      cases new
      exact settled

/-- A call that has not returned commits its first batch. -/
theorem History.commit (h : History behave trace batches)
    (asked : ∃ call, .invoked batch.call call ∈ trace ∧
      (behave call).call? = some (.publish batch.aggregateId batch.options batch.raws))
    (unreturned : ∀ call r, .returned batch.call call r ∉ trace)
    (first : batch.call ∉ batches.map Batch.call) (follows : batch.Follows batches) :
    History behave trace (batches ++ [batch]) where
  asked other member := by
    rcases List.mem_append.mp member with old | new
    · exact h.asked other old
    · rw [List.mem_singleton.mp new]
      exact asked
  once := by
    rw [List.map_append, List.map_singleton]
    exact h.once.append (List.nodup_singleton _) (by simpa using first)
  follows earlier other later split := by
    rcases List.eq_nil_or_concat later with rfl | ⟨rest, last, rfl⟩
    · obtain ⟨rfl, same⟩ := List.append_inj' split rfl
      cases same
      exact follows
    · rw [List.concat_eq_append, ← List.cons_append, ← List.append_assoc] at split
      obtain ⟨same, -⟩ := List.append_inj' split rfl
      exact h.follows earlier other rest same
  complete c call r returned := by
    refine (h.complete c call r returned).append ?_
    intro mine
    obtain rfl : c = batch.call := by simpa using mine
    exact unreturned call r returned

end History

/-! ### The clients -/

/-- What the services of one kind of aggregate bring along. -/
structure Domain where
  State : Type
  Event : Type
  RenderFailure : Type
  inhabited : Inhabited State
  domainEvent : DomainEvent Event
  renderer : Renderer State RenderFailure

namespace Domain

instance instInhabitedState (domain : Domain) : Inhabited domain.State := domain.inhabited

instance instDomainEvent (domain : Domain) : DomainEvent domain.Event := domain.domainEvent

def render (domain : Domain) (aggregate : Aggregate) :
    Except (RenderError domain.RenderFailure) (Entity domain.State) :=
  domain.renderer.render aggregate

end Domain

variable {Kind : Type} {domains : Kind → Domain}

/-- A load, a publish through `Publisher`, or an append without an expectation. -/
inductive ClientCall (domains : Kind → Domain) where
  | load (id : AggregateId)
  | publish (kind : Kind) (entity : Entity (domains kind).State) (events : List (domains kind).Event)
  | append (id : AggregateId) (options : PublishOptions) (raws : List RawEvent)

inductive ClientResult where
  | loaded (r : Except Error Aggregate)
  | published (r : Except (ServiceError Error) ChangeSet)

def ClientResult.ofStore : EventStoreResult → ClientResult
  | .loaded r => .loaded r
  | .published r => .published (r.mapError .store)

namespace ClientCall

/-- What the client runs: `Publisher::publish` for what a handler decided. -/
def program (encoding : Encoding) : ClientCall domains → ClientProgram ClientResult
  | .load id => (eventStoreCall (.load id)).bind fun r => .ret (.loaded r)
  | .publish _ entity events =>
      (publishEvents encoding entity events).bind fun r => .ret (.published r)
  | .append id options raws =>
      (mapErr (eventStoreCall (.publish id { options with expectedRevision := none } raws))
        .store).bind fun r => .ret (.published r)

/-- The one store call of a client's program, or its answer without the store. -/
def request (encoding : Encoding) : ClientCall domains → Request ClientResult
  | .load id => .storeCall (.load id) .ofStore
  | .publish _ entity events =>
      match rawEvents encoding events with
      | .error e => .answered (.published (.error (.codec (.encode e))))
      | .ok raws => .storeCall (.publish entity.aggregateId
          { expectedRevision := some entity.revision } raws) .ofStore
  | .append id options raws =>
      .storeCall (.publish id { options with expectedRevision := none } raws) .ofStore

/-- Run on a store, the program is its request. -/
theorem implement_program {Op : Type} {Res : Op → Type} (store : EventStore Op Res)
    (encoding : Encoding) (call : ClientCall domains) :
    (call.program encoding).implement store.body = store.serve (call.request encoding) := by
  have published : ∀ id options raws,
      (Program.bind (mapErr (eventStoreCall (.publish id options raws)) ServiceError.store) fun r =>
        .ret (ClientResult.published r)).implement store.body =
      store.serve (.storeCall (.publish id options raws) .ofStore) := by
    intro id options raws
    rw [mapErr, Program.bind_assoc, eventStoreCall, Program.perform_bind, EventStore.serve,
      EventStore.call, Program.bind_assoc]
    rfl
  cases call with
  | load id =>
      rw [program, eventStoreCall, Program.perform_bind, request, EventStore.serve, EventStore.call,
        Program.bind_assoc]
      rfl
  | append id options raws => exact published _ _ _
  | publish kind entity events =>
      rw [program, publishEvents, request]
      cases rawEvents encoding events with
      | error e => rfl
      | ok raws => exact published _ _ _

/-- The events a publish call would append, and to which stream. -/
theorem publish_request {encoding : Encoding} {kind : Kind} {entity : Entity (domains kind).State}
    {events : List (domains kind).Event} {id : AggregateId} {options : PublishOptions}
    {raws : List RawEvent}
    (asks : ((ClientCall.publish kind entity events).request encoding).call? =
      some (.publish id options raws)) :
    id = entity.aggregateId ∧ options.expectedRevision = some entity.revision := by
  rw [request] at asks
  cases encoded : rawEvents encoding events with
  | error e =>
      rw [encoded] at asks
      cases asks
  | ok raws =>
      rw [encoded] at asks
      cases asks
      exact ⟨rfl, rfl⟩

theorem request_respond {encoding : Encoding} {call : ClientCall domains} {sc : EventStoreCall}
    {respond : EventStoreResult → ClientResult} (asks : call.request encoding = .storeCall sc respond) :
    respond = .ofStore := by
  cases call with
  | load id =>
      cases asks
      rfl
  | append id options raws =>
      cases asks
      rfl
  | publish kind entity events =>
      rw [request] at asks
      cases encoded : rawEvents encoding events with
      | error e =>
          rw [encoded] at asks
          cases asks
      | ok raws =>
          rw [encoded] at asks
          cases asks
          rfl

end ClientCall

/-! ### No update is lost -/

section Run

variable {Op : Type} {Res : Op → Type}

abbrev ClientEvent (Op : Type) (Res : Op → Type) (domains : Kind → Domain) : Type :=
  Foundation.Event Op Res (Nat × ClientCall domains) ClientResult

/-- What is asked of the store a client holds. -/
abbrev clientRequest (encodings : Nat → Encoding) (call : Nat × ClientCall domains) :
    Request ClientResult :=
  call.2.request (encodings call.1)

/-- The entity is the rendering of an aggregate that some client has loaded. -/
def Rendered (domains : Kind → Domain) (trace : List (ClientEvent Op Res domains)) (kind : Kind)
    (entity : Entity (domains kind).State) : Prop :=
  ∃ c i id aggregate, .returned c (i, .load id) (.loaded (.ok aggregate)) ∈ trace ∧
    (domains kind).render aggregate = .ok entity

theorem Rendered.mono {trace later : List (ClientEvent Op Res domains)} {kind : Kind}
    {entity : Entity (domains kind).State} (h : Rendered domains trace kind entity)
    (earlier : trace <+: later) : Rendered domains later kind entity := by
  obtain ⟨c, i, id, aggregate, returned, renders⟩ := h
  exact ⟨c, i, id, aggregate, earlier.subset returned, renders⟩

/-- A handler decides on an entity that was loaded and rendered before. -/
def mayCommand (trace : List (ClientEvent Op Res domains)) : Nat × ClientCall domains → Prop
  | (_, .publish kind entity _) => Rendered domains trace kind entity
  | _ => True

/-- The streams are the batches of the successful publishes, and every batch
published through `Publisher` stands right behind the events its handler saw. -/
structure NoLostUpdate (encodings : Nat → Encoding) (trace : List (ClientEvent Op Res domains))
    (batches : List Batch) (stream : AggregateId → List RecordedEvent → Prop) : Prop where
  concatenation : ∀ id, stream id (streamOf batches id)
  asked : ∀ batch ∈ batches, ∃ call, .invoked batch.call call ∈ trace ∧
    (clientRequest encodings call).call? =
      some (.publish batch.aggregateId batch.options batch.raws)
  once : (batches.map Batch.call).Nodup
  carries : ∀ batch ∈ batches, List.Forall₂ (fun event raw => event.Carries batch.options.metadata raw)
    batch.events batch.raws
  successful : ∀ c call id options raws changeset,
    (clientRequest encodings call).call? = some (.publish id options raws) → raws ≠ [] →
    .returned c call (.published (.ok changeset)) ∈ trace →
      ⟨c, id, options, raws, changeset.events⟩ ∈ batches
  failed : ∀ c call e, .returned c call (.published (.error e)) ∈ trace →
    c ∉ batches.map Batch.call
  saw : ∀ before batch later i kind entity events, batches = before ++ batch :: later →
    .invoked batch.call (i, .publish kind entity events) ∈ trace →
      batch.aggregateId = entity.aggregateId ∧ batch.events ≠ [] ∧
        (domains kind).render (Aggregate.fromEvents entity.aggregateId
          (streamOf before entity.aggregateId)) = .ok entity
  atMostOne : ∀ batch ∈ batches, ∀ batch' ∈ batches, ∀ i i' kind kind' entity entity' events events',
    .invoked batch.call (i, .publish kind entity events) ∈ trace →
    .invoked batch'.call (i', .publish kind' entity' events') ∈ trace →
    entity.aggregateId = entity'.aggregateId → entity.revision = entity'.revision → batch = batch'

section Derived

variable {encodings : Nat → Encoding} {trace : List (ClientEvent Op Res domains)}
  {batches before later : List Batch} {batch : Batch} {i : Nat} {kind : Kind}
  {entity : Entity (domains kind).State} {events : List (domains kind).Event}

/-- What a batch published through `Publisher` found: a stream that ended at the
revision of the entity. -/
theorem History.published_behind (h : History (clientRequest encodings) trace batches)
    (once : ∀ c call call', .invoked c call ∈ trace → .invoked c call' ∈ trace → call = call')
    (split : batches = before ++ batch :: later)
    (invoked : .invoked batch.call (i, .publish kind entity events) ∈ trace) :
    batch.aggregateId = entity.aggregateId ∧ batch.events ≠ [] ∧
      lastRevision (streamOf before entity.aggregateId) = entity.revision := by
  have member : batch ∈ batches := by
    rw [split]
    exact List.mem_append_right _ (List.mem_cons_self ..)
  obtain ⟨call, asking, asks⟩ := h.asked batch member
  obtain rfl := once _ _ _ invoked asking
  obtain ⟨target, expected⟩ := ClientCall.publish_request asks
  have follows := h.follows before batch later split
  refine ⟨target, follows.events_ne_nil, ?_⟩
  rw [← target]
  exact (follows.expected _ expected).symm

/-- The batches that an entity was rendered from. -/
theorem History.rendered_seen (h : History (clientRequest encodings) trace batches)
    (rendered : Rendered domains trace kind entity) :
    ∃ seen, seen <+: batches ∧
      entity.revision = lastRevision (streamOf seen entity.aggregateId) ∧
      (domains kind).render (Aggregate.fromEvents entity.aggregateId
        (streamOf seen entity.aggregateId)) = .ok entity := by
  obtain ⟨c, i, id, aggregate, returned, renders⟩ := rendered
  obtain ⟨result, settled, same⟩ := h.complete c _ _ returned
  obtain ⟨sameId, revision, _⟩ := Renderer.render_eq_ok.mp renders
  cases settled with
  | loadFailed => cases same
  | loaded seen =>
      cases same
      have target : entity.aggregateId = id := sameId
      subst target
      exact ⟨_, seen, revision, renders⟩

/-- Among the first batches of a run the last revision of a stream says what it holds. -/
theorem streamOf_eq_of_lastRevision {seen seen' : List Batch} {id : AggregateId}
    (ordered : EventLog.Ordered (batches.flatMap Batch.entries)) (prior : seen <+: batches)
    (prior' : seen' <+: batches)
    (same : lastRevision (streamOf seen id) = lastRevision (streamOf seen' id)) :
    streamOf seen id = streamOf seen' id := by
  refine @EventLog.Ordered.eq_of_lastRevision _ id _ _ ordered ?_ ?_ same
  · rw [stream_flatMap_entries]
    exact streamOf_prefix prior id
  · rw [stream_flatMap_entries]
    exact streamOf_prefix prior' id

/-- Of two batches at places with the same stream before them, the later is the earlier. -/
theorem eq_of_streamOf_eq {between later' : List Batch} {batch' : Batch} {id : AggregateId}
    (target : batch.aggregateId = id) (nonempty : batch.events ≠ [])
    (same : streamOf before id = streamOf (before ++ between) id)
    (here : batch :: later = between ++ batch' :: later') : batch = batch' := by
  cases between with
  | nil => exact (List.cons.inj here).1
  | cons first between =>
      obtain ⟨rfl, -⟩ := List.cons.inj here
      rw [streamOf_append, List.self_eq_append_right, ← List.singleton_append, streamOf_append, streamOf_singleton,
        if_pos target] at same
      exact absurd (List.append_eq_nil_iff.mp same).1 nonempty

theorem History.noLostUpdate (h : History (clientRequest encodings) trace batches)
    (once : ∀ c call call', .invoked c call ∈ trace → .invoked c call' ∈ trace → call = call')
    (began : ∀ c call r, .returned c call r ∈ trace → .invoked c call ∈ trace)
    (decided : ∀ c i kind entity events, .invoked c (i, .publish kind entity events) ∈ trace →
      Rendered domains trace kind entity)
    (ordered : EventLog.Ordered (batches.flatMap Batch.entries))
    {stream : AggregateId → List RecordedEvent → Prop} (holds : ∀ id, stream id (streamOf batches id)) :
    NoLostUpdate encodings trace batches stream where
  concatenation := holds
  asked := h.asked
  once := h.once
  carries batch member := by
    obtain ⟨before, later, split⟩ := List.append_of_mem member
    exact (h.follows before batch later split).carries
  successful c call id options raws changeset asks nonempty returned := by
    have settled := h.complete c call _ returned
    cases request : clientRequest encodings call with
    | answered r =>
        rw [request] at asks
        cases asks
    | storeCall sc respond =>
        rw [request] at asks settled
        cases asks
        obtain ⟨result, settled, same⟩ := settled
        obtain rfl := ClientCall.request_respond request
        cases settled with
        | appended _ member =>
            cases same
            exact member
        | nothing => exact absurd rfl nonempty
        | publishFailed => cases same
  failed c call e returned member := by
    have settled := h.complete c call _ returned
    obtain ⟨batch, inside, mine⟩ := List.mem_map.mp member
    obtain ⟨call', invoked, asks⟩ := h.asked batch inside
    rw [mine] at invoked
    obtain rfl := once _ _ _ (began _ _ _ returned) invoked
    cases request : clientRequest encodings call with
    | answered r =>
        rw [request] at asks
        cases asks
    | storeCall sc respond =>
        rw [request] at asks settled
        cases asks
        obtain ⟨result, settled, same⟩ := settled
        obtain rfl := ClientCall.request_respond request
        match result with
        | .published (.error _) => exact settled.absent_of_error member
        | .published (.ok _) => cases same
        | .loaded _ => cases same
  saw before batch later i kind entity events split invoked := by
    obtain ⟨target, nonempty, behind⟩ := h.published_behind once split invoked
    obtain ⟨seen, prior, revision, renders⟩ := h.rendered_seen (decided _ _ _ _ _ invoked)
    rw [streamOf_eq_of_lastRevision ordered (by rw [split]; exact List.prefix_append _ _) prior
      (behind.trans revision)]
    exact ⟨target, nonempty, renders⟩
  atMostOne batch member batch' member' i i' kind kind' entity entity' events events' invoked invoked'
      sameId sameRevision := by
    obtain ⟨before, later, split⟩ := List.append_of_mem member
    obtain ⟨before', later', split'⟩ := List.append_of_mem member'
    obtain ⟨target, nonempty, behind⟩ := h.published_behind once split invoked
    obtain ⟨target', nonempty', behind'⟩ := h.published_behind once split' invoked'
    rw [← sameId] at target' behind'
    have same : streamOf before entity.aggregateId = streamOf before' entity.aggregateId :=
      streamOf_eq_of_lastRevision ordered (by rw [split]; exact List.prefix_append _ _)
        (by rw [split']; exact List.prefix_append _ _) (behind.trans (sameRevision.trans behind'.symm))
    -- a batch that another one follows would have made the stream longer
    rcases List.append_eq_append_iff.mp (split.symm.trans split') with
      ⟨between, rfl, here⟩ | ⟨between, rfl, here⟩
    · exact eq_of_streamOf_eq target nonempty same here
    · exact (eq_of_streamOf_eq target' nonempty' same.symm here).symm

end Derived
end Run
end WeeEvents
