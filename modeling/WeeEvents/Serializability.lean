import WeeEvents.AtomicStore
import WeeEvents.Service
import WeeEvents.Foundation.Refinement
import WeeEvents.Foundation.SequentialSpec

/-!
# Commands take effect one at a time

Services that share a store keep nothing but the streams: a command loads one,
renders it, decides, and publishes at the revision it decided at. What the services
are for is a map from aggregates to entities on which commands execute one at a time.
However their calls interleave, the streams render to such a map, and every call
returns an entity of a moment that includes all that had returned before it began.
-/
namespace WeeEvents
open Foundation

/-! ### A service and its entities -/

/-- A service that decides and publishes. Its reducers fold each of its events into the state. -/
structure CommandService (S E C R EL EH : Type) [Inhabited S] [DomainEvent E] where
  renderer : Renderer S R
  encoding : Encoding
  decide : Entity S → C → Decision E EH
  ofStore : Error → EL
  ofRender : RenderError R → EL
  ofPublish : ServiceError Error → EH
  lift : EL → EH
  evolve : S → E → S
  renders : ∀ id s e event, DomainEvent.encode encoding e = .ok event.data →
    event.eventType = DomainEvent.eventType e → renderer.apply id s event = .ok (evolve s e)

/-- The entities of all aggregates. -/
abbrev Entities (S : Type) : Type := AggregateId → Entity S

/-- What a command published, and the revision it led to. -/
structure CommandOutcome (E : Type) where
  events : List E
  revision : Revision

namespace CommandService

variable {S E C R EL EH : Type} [Inhabited S] [DomainEvent E] (service : CommandService S E C R EL EH)

/-- No aggregate has events. -/
def noEvents (S : Type) [Inhabited S] : Entities S := fun id => ⟨id, .zero, default⟩

/-- A command executes on the entity of its aggregate, and no other changes. -/
def Executes : SequentialSpec (AggregateId × C) (Entities S) (CommandOutcome E) :=
  fun entities call outcome entities' =>
    service.decide (entities call.1) call.2 = .publish outcome.events ∧ outcome.events ≠ [] ∧
      (entities call.1).revision < outcome.revision ∧
      entities' = Function.update entities call.1
        ⟨call.1, outcome.revision, outcome.events.foldl service.evolve (entities call.1).state⟩

/-- The streams of the log render to these entities. -/
def Shows (log : EventLog) (entities : Entities S) : Prop :=
  ∀ id, service.renderer.render (Aggregate.fromEvents id (log.stream id)) = .ok (entities id)

variable {service} {log log' : EventLog} {entities : Entities S} {id : AggregateId} {cmd : C}
  {events : List E} {raws : List RawEvent}

theorem Shows.revision (h : service.Shows log entities) (id : AggregateId) :
    (entities id).aggregateId = id ∧ (entities id).revision = lastRevision (log.stream id) := by
  obtain ⟨same, revision, -⟩ := Renderer.render_eq_ok.mp (h id)
  exact ⟨same, revision⟩

theorem Shows.state (h : service.Shows log entities) (id : AggregateId) :
    service.renderer.stateOf id (log.stream id) = .ok (entities id).state :=
  (Renderer.render_eq_ok.mp (h id)).2.2

theorem rawEvents_length {encoding : Encoding} (encoded : rawEvents encoding events = .ok raws) :
    raws.length = events.length := by
  induction events generalizing raws with
  | nil =>
      cases encoded
      rfl
  | cons event rest ih =>
      rw [rawEvents] at encoded
      split at encoded
      · cases encoded
      · split at encoded
        · cases encoded
        · next more encodedRest =>
            cases encoded
            simp [ih encodedRest]

/-- Recorded events fold to what the published ones evolve to. -/
theorem foldlM_apply {recorded : List RecordedEvent} {metadata : EventMetadata} (id : AggregateId)
    (encoded : rawEvents service.encoding events = .ok raws)
    (carries : List.Forall₂ (fun event raw => event.Carries metadata raw) recorded raws) (s : S) :
    recorded.foldlM (service.renderer.apply id) s = .ok (events.foldl service.evolve s) := by
  induction events generalizing raws recorded s with
  | nil =>
      cases encoded
      cases carries
      rfl
  | cons event rest ih =>
      rw [rawEvents] at encoded
      split at encoded
      · cases encoded
      · next data encodedFirst =>
          split at encoded
          · cases encoded
          · next more encodedRest =>
              cases encoded
              cases carries with
              | cons first later =>
                  obtain ⟨sameType, sameData, -⟩ := first
                  have applied := service.renders id s event _ (by rw [sameData]; exact encodedFirst) sameType
                  rw [List.foldlM_cons, applied]
                  exact ih encodedRest later _

/-- A publish at the revision of the entity executes the command, or has nothing to publish. -/
theorem Shows.publish {changeset : ChangeSet} (h : service.Shows log entities) (ordered : log.Ordered)
    (decided : service.decide (entities id) cmd = .publish events)
    (encoded : rawEvents service.encoding events = .ok raws)
    (step : StoreStep log (.publish id { expectedRevision := some (entities id).revision } raws)
      (.ok changeset) log') :
    (events = [] ∧ log' = log) ∨ ∃ entities',
      service.Executes entities (id, cmd) ⟨events, changeset.revision⟩ entities' ∧
        service.Shows log' entities' := by
  have length := rawEvents_length encoded
  have after := step.ordered ordered
  cases step with
  | nothing =>
      left
      exact ⟨List.length_eq_zero_iff.mp length.symm, rfl⟩
  | @appended _ _ _ recorded nonempty carries met _ =>
      right
      have some : recorded ≠ [] := by
        rintro rfl
        cases carries
        exact nonempty rfl
      have stream : EventLog.stream (log ++ entries id recorded) id = log.stream id ++ recorded := by
        rw [EventLog.stream_append, stream_entries]
      have newer : (entities id).revision < lastRevision recorded := by
        have last : lastRevision (log.stream id ++ recorded) = lastRevision recorded := lastRevision_append some
        rw [(h.revision id).2, ← last, ← stream]
        have prior : log.stream id <+: EventLog.stream (log ++ entries id recorded) id := by
          rw [stream]
          exact List.prefix_append _ _
        refine lt_of_le_of_ne (after.lastRevision_le prior) fun same => some ?_
        have whole := after.eq_of_lastRevision prior (List.prefix_refl _) same
        rw [stream] at whole
        exact List.self_eq_append_right.mp whole
      refine ⟨_, ⟨decided, ?_, newer, rfl⟩, fun other => ?_⟩
      · rintro rfl
        exact nonempty (List.length_eq_zero_iff.mp length)
      · rcases eq_or_ne other id with rfl | ne
        · rw [Function.update_self, stream]
          refine Renderer.render_eq_ok.mpr ⟨rfl, (lastRevision_append some).symm, ?_⟩
          change service.renderer.stateOf other (log.stream other ++ recorded) = _
          rw [Renderer.stateOf, List.foldlM_append, ← Renderer.stateOf, h.state other]
          exact foldlM_apply other encoded carries _
        · rw [Function.update_of_ne ne, EventLog.stream_append, stream_entries_ne ne, List.append_nil]
          exact h other

end CommandService

/-! ### Services on one store -/

/-- What services ask of their store: that it is opened, and its calls. -/
inductive ServiceOp where
  | openStore
  | store (call : EventStoreCall)

abbrev ServiceOp.Res : ServiceOp → Type
  | .openStore => Except SqliteError Unit
  | .store call => call.Res

inductive ServiceCall (C : Type) where
  | openStore
  | load (id : AggregateId)
  | execute (id : AggregateId) (cmd : C)

/-- The call is about this aggregate. -/
def ServiceCall.Targets {C : Type} (call : ServiceCall C) (id : AggregateId) : Prop :=
  call = .load id ∨ ∃ cmd, call = .execute id cmd

theorem ServiceCall.Targets.unique {C : Type} {call : ServiceCall C} {id id' : AggregateId}
    (h : call.Targets id) (h' : call.Targets id') : id = id' := by
  rcases h with rfl | ⟨cmd, rfl⟩
  · rcases h' with same | ⟨cmd, same⟩
    · exact ServiceCall.load.inj same
    · cases same
  · rcases h' with same | ⟨cmd, same⟩
    · cases same
    · exact (ServiceCall.execute.inj same).1

inductive ServiceResult (S EL EH : Type) where
  | opened (r : Except SqliteError Unit)
  | loaded (r : Except EL (Entity S))
  | executed (r : Except EH (Entity S))

/-- A client's program as a program of service operations. -/
def onStore {α : Type} (p : ClientProgram α) : Program ServiceOp ServiceOp.Res α :=
  p.lift ServiceOp.store fun _ r => r

/-- A discipline of store calls, where opening the store is always allowed. -/
def storeDiscipline {K : Type} (D : Discipline EventStoreCall EventStoreCall.Res K) :
    Discipline ServiceOp ServiceOp.Res K where
  may k op := match op with
    | .openStore => True
    | .store call => D.may k call
  learn k op r := match op, r with
    | .openStore, _ => k
    | .store call, r => D.learn k call r

theorem obeys_onStore {α K : Type} {D : Discipline EventStoreCall EventStoreCall.Res K} {done : K → α → Prop}
    {p : ClientProgram α} {k : K} (h : D.Obeys done p k) : (storeDiscipline D).Obeys done (onStore p) k := by
  induction p generalizing k with
  | ret a => exact h
  | call op next ih => exact ⟨h.1, fun r => ih r (h.2 r)⟩

/-- What a call of the service knows: what it loaded, and whether it has published. -/
inductive Stage where
  | start
  | loaded (aggregate : Aggregate)
  | accepted (aggregate reloaded : Aggregate)
  | published (aggregate : Aggregate)
  | finished (aggregate reloaded : Aggregate)

def Stage.learn : Stage → (call : EventStoreCall) → call.Res → Stage
  | .start, .load _, .ok aggregate => .loaded aggregate
  | .loaded aggregate, .load _, .ok reloaded => .accepted aggregate reloaded
  | .loaded aggregate, .publish _ _ _, .ok _ => .published aggregate
  | .published aggregate, .load _, .ok reloaded => .finished aggregate reloaded
  | k, _, _ => k

/-- The aggregates a call has loaded. -/
def Stage.aggregates : Stage → List Aggregate
  | .start => []
  | .loaded aggregate => [aggregate]
  | .accepted aggregate reloaded => [aggregate, reloaded]
  | .published aggregate => [aggregate]
  | .finished aggregate reloaded => [aggregate, reloaded]

namespace CommandService

section Programs

variable {S E C R EL EH : Type} [Inhabited S] [DomainEvent E] (service : CommandService S E C R EL EH)

def loader : Loader EventStoreCall EventStoreCall.Res S EL :=
  loadAndRender service.renderer service.ofStore service.ofRender

def handler : Handler EventStoreCall EventStoreCall.Res S C EH :=
  decideAndPublish service.encoding service.decide service.ofPublish

/-- `load` and `execute` of the generated service. -/
def program : ServiceCall C → Program ServiceOp ServiceOp.Res (ServiceResult S EL EH)
  | .openStore => (Program.perform .openStore).bind fun r => .ret (.opened r)
  | .load id => onStore ((service.loader id).bind fun r => .ret (.loaded r))
  | .execute id cmd => onStore
      ((dispatchCommand service.loader service.handler service.lift id cmd).bind fun r => .ret (.executed r))

/-- The handler decided on the loaded aggregate to publish these events. -/
def Decided (cmd : C) (k : Stage) (id : AggregateId) (options : PublishOptions) (raws : List RawEvent) :
    Prop :=
  ∃ aggregate entity events, k = .loaded aggregate ∧ service.renderer.render aggregate = .ok entity ∧
    service.decide entity cmd = .publish events ∧ rawEvents service.encoding events = .ok raws ∧
    id = entity.aggregateId ∧ options = { expectedRevision := some entity.revision }

/-- A call loads its aggregate, and publishes what it decided on what it loaded. -/
def stages (call : ServiceCall C) : Discipline EventStoreCall EventStoreCall.Res Stage where
  may k op := match op with
    | .load id => call.Targets id
    | .publish id options raws => ∃ target cmd, call = .execute target cmd ∧
        service.Decided cmd k id options raws
  learn := Stage.learn

/-- How a call ends at each stage. -/
inductive Ends : ServiceCall C → Stage → ServiceResult S EL EH → Prop
  | opened {k : Stage} {r : Except SqliteError Unit} : Ends .openStore k (.opened r)
  | loaded {id : AggregateId} {aggregate : Aggregate} {entity : Entity S} :
      service.renderer.render aggregate = .ok entity → Ends (.load id) (.loaded aggregate) (.loaded (.ok entity))
  | loadFailed {id : AggregateId} {k : Stage} {e : Error} :
      Ends (.load id) k (.loaded (.error (service.ofStore e)))
  | unrendered {call : ServiceCall C} {k : Stage} {aggregate : Aggregate} {e : RenderError R}
      {result : ServiceResult S EL EH} : aggregate ∈ k.aggregates →
      service.renderer.render aggregate = .error e → Ends call k result
  | accepted {id : AggregateId} {cmd : C} {aggregate reloaded : Aggregate} {entity entity' : Entity S} :
      service.renderer.render aggregate = .ok entity → service.decide entity cmd = .accept →
      service.renderer.render reloaded = .ok entity' →
      Ends (.execute id cmd) (.accepted aggregate reloaded) (.executed (.ok entity'))
  | finished {id : AggregateId} {cmd : C} {aggregate reloaded : Aggregate} {entity' : Entity S} :
      service.renderer.render reloaded = .ok entity' →
      Ends (.execute id cmd) (.finished aggregate reloaded) (.executed (.ok entity'))
  | rejected {id : AggregateId} {cmd : C} {aggregate : Aggregate} {entity : Entity S} {e : EH} :
      service.renderer.render aggregate = .ok entity → service.decide entity cmd = .reject e →
      Ends (.execute id cmd) (.loaded aggregate) (.executed (.error e))
  | notPublished {id : AggregateId} {cmd : C} {aggregate : Aggregate} {e : ServiceError Error} :
      Ends (.execute id cmd) (.loaded aggregate) (.executed (.error (service.ofPublish e)))
  | notLoaded {id : AggregateId} {cmd : C} {k : Stage} {e : Error} :
      Ends (.execute id cmd) k (.executed (.error (service.lift (service.ofStore e))))

end Programs

section Stages

variable {S E C R EL EH : Type} [Inhabited S] [DomainEvent E] {service : CommandService S E C R EL EH}
  {id : AggregateId} {cmd : C}

/-- What a loader returns: the rendering of what it loaded, or why there is none. -/
inductive LoadEnds (service : CommandService S E C R EL EH) (k : Stage) (after : Aggregate → Stage) :
    Stage → Except EL (Entity S) → Prop
  | rendered {aggregate : Aggregate} {entity : Entity S} : service.renderer.render aggregate = .ok entity →
      LoadEnds service k after (after aggregate) (.ok entity)
  | unrendered {aggregate : Aggregate} {e : RenderError R} : service.renderer.render aggregate = .error e →
      LoadEnds service k after (after aggregate) (.error (service.ofRender e))
  | failed {e : Error} : LoadEnds service k after k (.error (service.ofStore e))

theorem obeys_loader {call : ServiceCall C} (may : call.Targets id) {k : Stage} {after : Aggregate → Stage}
    (loads : ∀ aggregate, k.learn (.load id) (.ok aggregate) = after aggregate)
    (fails : ∀ e, k.learn (.load id) (.error e) = k) :
    (service.stages call).Obeys (service.LoadEnds k after) (service.loader id) k := by
  refine ⟨may, fun r => ?_⟩
  cases r with
  | error e =>
      rw [show (service.stages call).learn k (.load id) (.error e) = k from fails e]
      exact .failed
  | ok aggregate =>
      rw [show (service.stages call).learn k (.load id) (.ok aggregate) = after aggregate from loads aggregate]
      change service.LoadEnds k after (after aggregate) ((service.renderer.render aggregate).mapError service.ofRender)
      cases rendered : service.renderer.render aggregate with
      | ok entity => exact .rendered rendered
      | error e => exact .unrendered rendered

theorem obeys_load (id : AggregateId) :
    (service.stages (.load id)).Obeys (service.Ends (.load id))
      ((service.loader id).bind fun r => .ret (.loaded r)) .start := by
  have loads : (service.stages (.load id)).Obeys (service.LoadEnds .start .loaded) (service.loader id) .start :=
    obeys_loader (.inl rfl) (fun _ => rfl) fun _ => rfl
  refine loads.bind fun k r ends => ?_
  cases ends with
  | rendered rendered => exact .loaded rendered
  | unrendered rendered => exact .unrendered (List.mem_singleton_self _) rendered
  | failed => exact .loadFailed

/-- How the handler leaves a call that loaded an aggregate. -/
inductive HandlerEnds (service : CommandService S E C R EL EH) (aggregate : Aggregate) (entity : Entity S)
    (cmd : C) : Stage → Except EH (HandlerOutcome S) → Prop
  | accepted : service.decide entity cmd = .accept →
      HandlerEnds service aggregate entity cmd (.loaded aggregate) (.ok .reload)
  | published : HandlerEnds service aggregate entity cmd (.published aggregate) (.ok .reload)
  | rejected {e : EH} : service.decide entity cmd = .reject e →
      HandlerEnds service aggregate entity cmd (.loaded aggregate) (.error e)
  | notPublished {e : ServiceError Error} :
      HandlerEnds service aggregate entity cmd (.loaded aggregate) (.error (service.ofPublish e))

theorem obeys_handler {aggregate : Aggregate} {entity : Entity S} (id : AggregateId)
    (rendered : service.renderer.render aggregate = .ok entity) :
    (service.stages (.execute id cmd)).Obeys (service.HandlerEnds aggregate entity cmd)
      (service.handler entity cmd) (.loaded aggregate) := by
  unfold handler decideAndPublish
  cases decided : service.decide entity cmd with
  | reject e => exact .rejected decided
  | accept => exact .accepted decided
  | publish events =>
      dsimp only
      unfold publishEvents
      cases encoded : rawEvents service.encoding events with
      | error e => exact .notPublished
      | ok raws =>
          refine ⟨⟨id, cmd, rfl, aggregate, entity, events, rfl, rendered, decided, encoded, rfl, rfl⟩, fun r => ?_⟩
          cases r with
          | error e => exact .notPublished
          | ok changeset => exact .published

/-- The last load of a command, whose entity it returns. -/
theorem obeys_reload {k : Stage} {after : Aggregate → Stage}
    (loads : ∀ aggregate, k.learn (.load id) (.ok aggregate) = after aggregate)
    (fails : ∀ e, k.learn (.load id) (.error e) = k) (has : ∀ aggregate, aggregate ∈ (after aggregate).aggregates)
    (ends : ∀ aggregate entity, service.renderer.render aggregate = .ok entity →
      service.Ends (.execute id cmd) (after aggregate) (.executed (.ok entity))) :
    (service.stages (.execute id cmd)).Obeys (fun k r => service.Ends (.execute id cmd) k (.executed r))
      (mapErr (service.loader id) service.lift) k := by
  refine (obeys_loader (.inr ⟨cmd, rfl⟩) loads fails).bind fun k' r ended => ?_
  cases ended with
  | rendered rendered => exact ends _ _ rendered
  | unrendered rendered => exact .unrendered (has _) rendered
  | failed => exact .notLoaded

theorem obeys_execute (id : AggregateId) (cmd : C) :
    (service.stages (.execute id cmd)).Obeys (service.Ends (.execute id cmd))
      ((dispatchCommand service.loader service.handler service.lift id cmd).bind fun r => .ret (.executed r))
      .start := by
  have first : (service.stages (.execute id cmd)).Obeys
      (fun k r => ∃ inner, service.LoadEnds .start .loaded k inner ∧ r = inner.mapError service.lift)
      (mapErr (service.loader id) service.lift) .start :=
    (obeys_loader (.inr ⟨cmd, rfl⟩) (fun _ => rfl) fun _ => rfl).bind fun _ r ends => ⟨r, ends, rfl⟩
  have dispatches : (service.stages (.execute id cmd)).Obeys
      (fun k r => service.Ends (.execute id cmd) k (.executed r))
      (dispatchCommand service.loader service.handler service.lift id cmd) .start := by
    refine first.andThen (fun k entity known => ?_) fun k e known => ?_
    · obtain ⟨inner, ended, same⟩ := known
      cases ended with
      | unrendered => cases same
      | failed => cases same
      | @rendered aggregate entity' rendered =>
          cases same
          refine (obeys_handler id rendered).andThen (fun k outcome handled => ?_) fun k e handled => ?_
          · cases handled with
            | accepted decided =>
                exact obeys_reload (fun _ => rfl) (fun _ => rfl)
                  (fun reloaded => List.mem_cons_of_mem _ (List.mem_singleton_self _))
                  fun _ _ again => .accepted rendered decided again
            | published =>
                exact obeys_reload (fun _ => rfl) (fun _ => rfl)
                  (fun reloaded => List.mem_cons_of_mem _ (List.mem_singleton_self _))
                  fun _ _ again => .finished again
          · cases handled with
            | rejected decided => exact .rejected rendered decided
            | notPublished => exact .notPublished
    · obtain ⟨inner, ended, same⟩ := known
      cases ended with
      | rendered => cases same
      | failed =>
          cases same
          exact .notLoaded
      | unrendered rendered => exact .unrendered (List.mem_singleton_self _) rendered
  exact dispatches.bind fun _ _ ended => ended

/-- Every call of the service ends as its stages say. -/
theorem obeys_program (call : ServiceCall C) :
    (storeDiscipline (service.stages call)).Obeys (service.Ends call) (service.program call) .start := by
  cases call with
  | openStore => exact ⟨trivial, fun _ => .opened⟩
  | load id => exact obeys_onStore (obeys_load id)
  | execute id cmd => exact obeys_onStore (obeys_execute id cmd)

end Stages

/-! ### The explanation of a run -/

section Trace

variable {Op : Type} {Res : Op → Type} {S E C R EL EH : Type} [Inhabited S] [DomainEvent E]

/-- The entities after the first commands of an order, none missing that had returned before call
`c` began. -/
structure Moment (service : CommandService S E C R EL EH)
    (trace : List (Event Op Res (Nat × ServiceCall C) (ServiceResult S EL EH)))
    (order front : List (Completed (AggregateId × C) (CommandOutcome E))) (c : Nat) (entities : Entities S) :
    Prop where
  recent : Recent trace order front c
  run : SequentialSpec.Run service.Executes (noEvents S) front entities

/-- What call `c` returned, where the commands take effect in this order. -/
inductive Answers (service : CommandService S E C R EL EH)
    (trace : List (Event Op Res (Nat × ServiceCall C) (ServiceResult S EL EH)))
    (order : List (Completed (AggregateId × C) (CommandOutcome E))) (c : Nat) :
    ServiceCall C → ServiceResult S EL EH → Prop
  | opened {r : Except SqliteError Unit} : Answers service trace order c .openStore (.opened r)
  | loaded {id : AggregateId} {front : List (Completed (AggregateId × C) (CommandOutcome E))}
      {entities : Entities S} : service.Moment trace order front c entities →
      Answers service trace order c (.load id) (.loaded (.ok (entities id)))
  | loadFailed {id : AggregateId} {e : Error} :
      Answers service trace order c (.load id) (.loaded (.error (service.ofStore e)))
  | executed {id : AggregateId} {cmd : C} {outcome : CommandOutcome E}
      {front : List (Completed (AggregateId × C) (CommandOutcome E))} {entities : Entities S} :
      service.Moment trace order front c entities → ⟨c, (id, cmd), outcome⟩ ∈ front →
      Answers service trace order c (.execute id cmd) (.executed (.ok (entities id)))
  | unchanged {id : AggregateId} {cmd : C}
      {front front' : List (Completed (AggregateId × C) (CommandOutcome E))} {entities entities' : Entities S} :
      c ∉ order.map Completed.caller → service.Moment trace order front c entities →
      (service.decide (entities id) cmd = .accept ∨ service.decide (entities id) cmd = .publish []) →
      service.Moment trace order front' c entities' →
      Answers service trace order c (.execute id cmd) (.executed (.ok (entities' id)))
  | rejected {id : AggregateId} {cmd : C} {e : EH}
      {front : List (Completed (AggregateId × C) (CommandOutcome E))} {entities : Entities S} :
      c ∉ order.map Completed.caller → service.Moment trace order front c entities →
      service.decide (entities id) cmd = .reject e →
      Answers service trace order c (.execute id cmd) (.executed (.error e))
  | notPublished {id : AggregateId} {cmd : C} {e : ServiceError Error} : c ∉ order.map Completed.caller →
      Answers service trace order c (.execute id cmd) (.executed (.error (service.ofPublish e)))
  | notLoaded {id : AggregateId} {cmd : C} {e : Error} :
      Answers service trace order c (.execute id cmd) (.executed (.error (service.lift (service.ofStore e))))

/-- An order of commands that explains a run: it respects real time, every command executes on the
entities the ones before it left, and every result is of a moment of it. -/
structure Serialized (service : CommandService S E C R EL EH)
    (trace : List (Event Op Res (Nat × ServiceCall C) (ServiceResult S EL EH)))
    (order : List (Completed (AggregateId × C) (CommandOutcome E))) (entities : Entities S) : Prop where
  run : SequentialSpec.Run service.Executes (noEvents S) order entities
  ordered : RealTimeOrder trace order
  own : ∀ entry ∈ order, ∃ i, .invoked entry.caller (i, .execute entry.call.1 entry.call.2) ∈ trace
  answers : ∀ c i call result, .returned c (i, call) result ∈ trace → service.Answers trace order c call result

variable {service : CommandService S E C R EL EH}
  {trace : List (Event Op Res (Nat × ServiceCall C) (ServiceResult S EL EH))}
  {event : Event Op Res (Nat × ServiceCall C) (ServiceResult S EL EH)}
  {order front : List (Completed (AggregateId × C) (CommandOutcome E))} {entities : Entities S} {c : Nat}
  {call : ServiceCall C} {result : ServiceResult S EL EH}

theorem Moment.extend (h : service.Moment trace order front c entities)
    (quiet : ∀ call, event ≠ .invoked c call) : service.Moment (trace ++ [event]) order front c entities :=
  ⟨h.recent.extend quiet, h.run⟩

theorem Moment.concat (h : service.Moment trace order front c entities)
    {entry : Completed (AggregateId × C) (CommandOutcome E)}
    (unreturned : ∀ call result, .returned entry.caller call result ∉ trace) :
    service.Moment trace (order ++ [entry]) front c entities :=
  ⟨h.recent.concat unreturned, h.run⟩

/-- A result stays explained as long as its moments do. -/
theorem Answers.keep {Op' : Type} {Res' : Op' → Type}
    {trace' : List (Event Op' Res' (Nat × ServiceCall C) (ServiceResult S EL EH))}
    {order' : List (Completed (AggregateId × C) (CommandOutcome E))}
    (h : service.Answers trace order c call result)
    (absent : c ∉ order.map Completed.caller → c ∉ order'.map Completed.caller)
    (moment : ∀ front entities, service.Moment trace order front c entities →
      service.Moment trace' order' front c entities) : service.Answers trace' order' c call result := by
  cases h with
  | opened => exact .opened
  | loaded seen => exact .loaded (moment _ _ seen)
  | loadFailed => exact .loadFailed
  | executed seen member => exact .executed (moment _ _ seen) member
  | unchanged none seen decided seen' => exact .unchanged (absent none) (moment _ _ seen) decided (moment _ _ seen')
  | rejected none seen decided => exact .rejected (absent none) (moment _ _ seen) decided
  | notPublished none => exact .notPublished (absent none)
  | notLoaded => exact .notLoaded

theorem Serialized.nil : service.Serialized ([] : List (Event Op Res (Nat × ServiceCall C) _)) [] (noEvents S) where
  run := .nil
  ordered := .nil
  own _ member := by cases member
  answers _ _ _ _ member := by cases member

/-- An operation that executes no command, or a call that begins. -/
theorem Serialized.extend (h : service.Serialized trace order entities)
    (fresh : ∀ c call, event = .invoked c call → ∀ earlier ∈ trace, earlier.caller ≠ c)
    (open_ : ∀ c call r, event ≠ .returned c call r) : service.Serialized (trace ++ [event]) order entities where
  run := h.run
  ordered := h.ordered.extend fun entry member call same => by
    obtain ⟨i, invoked⟩ := h.own entry member
    exact fresh _ call same _ invoked rfl
  own entry member := by
    obtain ⟨i, invoked⟩ := h.own entry member
    exact ⟨i, List.mem_append_left _ invoked⟩
  answers c i call result returned := by
    rcases List.mem_append.mp returned with old | new
    · refine (h.answers c i call result old).keep id fun front entities seen => seen.extend fun call same => ?_
      exact fresh c call same _ old rfl
    · exact absurd (List.mem_singleton.mp new).symm (open_ c (i, call) result)

theorem Serialized.performed {call : Nat × ServiceCall C} {op : Op} {r : Res op}
    (h : service.Serialized trace order entities) :
    service.Serialized (trace ++ [.performed c call op r]) order entities :=
  h.extend (fun _ _ same => by cases same) fun _ _ _ same => by cases same

/-- A call that returns what its stage says. -/
theorem Serialized.finish {i : Nat} (h : service.Serialized trace order entities)
    (answers : service.Answers trace order c call result) :
    service.Serialized (trace ++ [.returned c (i, call) result]) order entities where
  run := h.run
  ordered := h.ordered.extend fun entry member call same => by cases same
  own entry member := by
    obtain ⟨i, invoked⟩ := h.own entry member
    exact ⟨i, List.mem_append_left _ invoked⟩
  answers c' i' call' result' returned := by
    have later : ∀ c front entities, service.Moment trace order front c entities →
        service.Moment (trace ++ [.returned c' (i', call') result']) order front c entities :=
      fun c front entities seen => seen.extend fun _ same => by cases same
    rcases List.mem_append.mp returned with old | new
    · exact (h.answers c' i' call' result' old).keep id fun _ _ seen => seen.extend fun _ same => by cases same
    · cases List.mem_singleton.mp new
      exact answers.keep id (later c)

/-- A command takes effect while its call is open. -/
theorem Serialized.point {i : Nat} {id : AggregateId} {cmd : C} {outcome : CommandOutcome E}
    {entities' : Entities S} (h : service.Serialized trace order entities)
    (invoked : .invoked c (i, .execute id cmd) ∈ trace) (unreturned : ∀ call result, .returned c call result ∉ trace)
    (absent : c ∉ order.map Completed.caller) (executes : service.Executes entities (id, cmd) outcome entities') :
    service.Serialized trace (order ++ [⟨c, (id, cmd), outcome⟩]) entities' where
  run := h.run.snoc executes
  ordered := h.ordered.concat unreturned absent
  own entry member := by
    rcases List.mem_append.mp member with old | new
    · exact h.own entry old
    · rw [List.mem_singleton.mp new]
      exact ⟨i, invoked⟩
  answers c' i' call' result' returned := by
    refine (h.answers c' i' call' result' returned).keep (fun none member => ?_) fun _ _ seen =>
      seen.concat unreturned
    rw [List.map_append, List.mem_append] at member
    rcases member with old | new
    · exact none old
    · rw [List.map_singleton, List.mem_singleton] at new
      subst new
      exact unreturned _ _ returned

end Trace

/-! ### What holds of a running call -/

section Stands

variable {Op : Type} {Res : Op → Type} {S E C R EL EH : Type} [Inhabited S] [DomainEvent E]

/-- What a call loaded of the stream shows an entity of a moment. -/
structure Loaded (service : CommandService S E C R EL EH)
    (trace : List (Event Op Res (Nat × ServiceCall C) (ServiceResult S EL EH)))
    (order front : List (Completed (AggregateId × C) (CommandOutcome E))) (log : EventLog) (c : Nat)
    (id : AggregateId) (aggregate : Aggregate) : Prop where
  seen : ∃ events, events <+: log.stream id ∧ aggregate = Aggregate.fromEvents id events
  moment : ∃ entities, service.Moment trace order front c entities ∧
    service.renderer.render aggregate = .ok (entities id)

/-- What a command that published stands for: nothing, or its place in the order. -/
inductive TookEffect (service : CommandService S E C R EL EH)
    (order front : List (Completed (AggregateId × C) (CommandOutcome E))) (c : Nat) (id : AggregateId)
    (cmd : C) (entity : Entity S) : Prop
  | nothing : c ∉ order.map Completed.caller → service.decide entity cmd = .publish [] →
      TookEffect service order front c id cmd entity
  | effect {outcome : CommandOutcome E} : ⟨c, (id, cmd), outcome⟩ ∈ front →
      TookEffect service order front c id cmd entity

/-- What holds of a running call at each stage. -/
inductive Stands (service : CommandService S E C R EL EH)
    (trace : List (Event Op Res (Nat × ServiceCall C) (ServiceResult S EL EH)))
    (order : List (Completed (AggregateId × C) (CommandOutcome E))) (log : EventLog) (c : Nat) :
    ServiceCall C → Stage → Prop
  | start {call : ServiceCall C} : c ∉ order.map Completed.caller → Stands service trace order log c call .start
  | loaded {call : ServiceCall C} {id : AggregateId} {aggregate : Aggregate}
      {front : List (Completed (AggregateId × C) (CommandOutcome E))} : call.Targets id →
      c ∉ order.map Completed.caller → Loaded service trace order front log c id aggregate →
      Stands service trace order log c call (.loaded aggregate)
  | accepted {call : ServiceCall C} {id : AggregateId} {aggregate reloaded : Aggregate}
      {front front' : List (Completed (AggregateId × C) (CommandOutcome E))} : call.Targets id →
      c ∉ order.map Completed.caller → Loaded service trace order front log c id aggregate →
      Loaded service trace order front' log c id reloaded →
      Stands service trace order log c call (.accepted aggregate reloaded)
  | published {id : AggregateId} {cmd : C} {aggregate : Aggregate} {entity : Entity S}
      {front : List (Completed (AggregateId × C) (CommandOutcome E))} :
      Loaded service trace order front log c id aggregate → service.renderer.render aggregate = .ok entity →
      TookEffect service order order c id cmd entity →
      Stands service trace order log c (.execute id cmd) (.published aggregate)
  | finished {id : AggregateId} {cmd : C} {aggregate reloaded : Aggregate} {entity : Entity S}
      {front front' : List (Completed (AggregateId × C) (CommandOutcome E))} :
      Loaded service trace order front log c id aggregate → service.renderer.render aggregate = .ok entity →
      Loaded service trace order front' log c id reloaded → TookEffect service order front' c id cmd entity →
      Stands service trace order log c (.execute id cmd) (.finished aggregate reloaded)

variable {service : CommandService S E C R EL EH}
  {trace trace' : List (Event Op Res (Nat × ServiceCall C) (ServiceResult S EL EH))}
  {order order' front : List (Completed (AggregateId × C) (CommandOutcome E))} {log log' : EventLog}
  {entities : Entities S} {c : Nat} {id : AggregateId} {cmd : C} {call : ServiceCall C} {k : Stage}
  {result : ServiceResult S EL EH} {aggregate : Aggregate}

/-- A load that the store answers now. -/
theorem Loaded.now (shows : service.Shows log entities) (h : service.Serialized trace order entities) (c : Nat)
    (id : AggregateId) : service.Loaded trace order order log c id (Aggregate.fromEvents id (log.stream id)) :=
  ⟨⟨_, List.prefix_refl _, rfl⟩, entities, ⟨.now trace order c, h.run⟩, shows id⟩

theorem Loaded.keep (h : service.Loaded trace order front log c id aggregate)
    (moment : ∀ entities, service.Moment trace order front c entities → service.Moment trace' order' front c entities)
    (grows : log.stream id <+: log'.stream id) : service.Loaded trace' order' front log' c id aggregate := by
  obtain ⟨⟨events, prior, same⟩, entities, seen, shown⟩ := h
  exact ⟨⟨events, prior.trans grows, same⟩, entities, moment _ seen, shown⟩

/-- What a call knows stays true while others publish. -/
theorem Stands.keep (h : service.Stands trace order log c call k)
    (absent : c ∉ order.map Completed.caller → c ∉ order'.map Completed.caller) (longer : order <+: order')
    (moment : ∀ front entities, service.Moment trace order front c entities →
      service.Moment trace' order' front c entities)
    (grows : ∀ id, log.stream id <+: log'.stream id) : service.Stands trace' order' log' c call k := by
  cases h with
  | start none => exact .start (absent none)
  | loaded target none seen => exact .loaded target (absent none) (seen.keep (moment _) (grows _))
  | accepted target none seen again =>
      exact .accepted target (absent none) (seen.keep (moment _) (grows _)) (again.keep (moment _) (grows _))
  | published seen rendered took =>
      refine .published (seen.keep (moment _) (grows _)) rendered ?_
      cases took with
      | nothing none decided => exact .nothing (absent none) decided
      | effect member => exact .effect (longer.subset member)
  | finished seen rendered again took =>
      refine .finished (seen.keep (moment _) (grows _)) rendered (again.keep (moment _) (grows _)) ?_
      cases took with
      | nothing none decided => exact .nothing (absent none) decided
      | effect member => exact .effect member

theorem Stands.renders (h : service.Stands trace order log c call k) (member : aggregate ∈ k.aggregates) :
    ∃ entity, service.renderer.render aggregate = .ok entity := by
  have shown : ∀ {id : AggregateId} {front : List (Completed (AggregateId × C) (CommandOutcome E))}
      {aggregate : Aggregate}, service.Loaded trace order front log c id aggregate →
      ∃ entity, service.renderer.render aggregate = .ok entity := by
    intro id front aggregate seen
    obtain ⟨entities, -, shown⟩ := seen.moment
    exact ⟨_, shown⟩
  cases h with
  | start => cases member
  | loaded _ _ seen =>
      rw [List.mem_singleton.mp member]
      exact shown seen
  | accepted _ _ seen again =>
      rcases List.mem_cons.mp member with rfl | later
      · exact shown seen
      · rw [List.mem_singleton.mp later]
        exact shown again
  | published seen =>
      rw [List.mem_singleton.mp member]
      exact shown seen
  | finished seen _ again =>
      rcases List.mem_cons.mp member with rfl | later
      · exact shown seen
      · rw [List.mem_singleton.mp later]
        exact shown again

/-- What a call returns is of the moments it has seen. -/
theorem Stands.answers (h : service.Stands trace order log c call k) (ends : service.Ends call k result) :
    service.Answers trace order c call result := by
  cases ends with
  | opened => exact .opened
  | loadFailed => exact .loadFailed
  | notLoaded => exact .notLoaded
  | unrendered member failed =>
      obtain ⟨entity, shown⟩ := h.renders member
      rw [failed] at shown
      cases shown
  | loaded rendered =>
      cases h with
      | loaded target _ seen =>
          obtain rfl := target.unique (.inl rfl)
          obtain ⟨entities, moment, shown⟩ := seen.moment
          cases rendered.symm.trans shown
          exact .loaded moment
  | rejected rendered decided =>
      cases h with
      | loaded target none seen =>
          obtain rfl := target.unique (.inr ⟨_, rfl⟩)
          obtain ⟨entities, moment, shown⟩ := seen.moment
          cases rendered.symm.trans shown
          exact .rejected none moment decided
  | notPublished =>
      cases h with
      | loaded _ none _ => exact .notPublished none
  | accepted rendered decided rendered' =>
      cases h with
      | accepted target none seen again =>
          obtain rfl := target.unique (.inr ⟨_, rfl⟩)
          obtain ⟨entities, moment, shown⟩ := seen.moment
          obtain ⟨entities', moment', shown'⟩ := again.moment
          cases rendered.symm.trans shown
          cases rendered'.symm.trans shown'
          exact .unchanged none moment (.inl decided) moment'
  | finished rendered' =>
      cases h with
      | finished seen rendered again took =>
          obtain ⟨entities, moment, shown⟩ := seen.moment
          obtain ⟨entities', moment', shown'⟩ := again.moment
          cases rendered.symm.trans shown
          cases rendered'.symm.trans shown'
          cases took with
          | nothing none decided => exact .unchanged none moment (.inr decided) moment'
          | effect member => exact .executed moment' member

theorem Moment.grown {c' : Nat} {entities : Entities S} (h : service.Moment trace order front c' entities)
    (grown : GrownBy c order order') (unreturned : ∀ call result, .returned c call result ∉ trace) :
    service.Moment trace order' front c' entities :=
  ⟨h.recent.grown grown unreturned, h.run⟩

/-- The stream a call decided on is the whole stream when its publish finds the revision there. -/
theorem Loaded.current {entity : Entity S} (h : service.Loaded trace order front log c id aggregate)
    (ordered : log.Ordered) (shows : service.Shows log entities)
    (rendered : service.renderer.render aggregate = .ok entity)
    (current : entity.revision = lastRevision (log.stream id)) : entity = entities id := by
  obtain ⟨⟨events, prior, rfl⟩, -⟩ := h
  obtain ⟨-, revision, -⟩ := Renderer.render_eq_ok.mp rendered
  have whole := ordered.eq_of_lastRevision prior (List.prefix_refl _) (revision.symm.trans current)
  subst whole
  exact Except.ok.inj (rendered.symm.trans (shows id))

/-- A load of a running call. -/
theorem Stands.load {r : Except Error Aggregate} (h : service.Stands trace order log c call k)
    (target : call.Targets id) (shows : service.Shows log entities)
    (serialized : service.Serialized trace order entities) (step : StoreStep log (.load id) r log') :
    service.Stands trace order log c call (k.learn (.load id) r) := by
  cases step with
  | loadFailed => cases k <;> exact h
  | loaded =>
      have now := Loaded.now shows serialized c id
      cases h with
      | start none => exact .loaded target none now
      | loaded target' none seen =>
          obtain rfl := target.unique target'
          exact .accepted target none seen now
      | accepted target' none seen again => exact .accepted target' none seen again
      | published seen rendered took =>
          obtain rfl := target.unique (.inr ⟨_, rfl⟩)
          exact .finished seen rendered now took
      | finished seen rendered again took => exact .finished seen rendered again took

/-- A publish of a running call: its command takes effect now, or does nothing. -/
theorem Stands.publish {i : Nat} {options : PublishOptions} {raws : List RawEvent} {r : Except Error ChangeSet}
    (h : service.Stands trace order log c call k) (may : (service.stages call).may k (.publish id options raws))
    (invoked : .invoked c (i, call) ∈ trace) (unreturned : ∀ call result, .returned c call result ∉ trace)
    (ordered : log.Ordered) (shows : service.Shows log entities)
    (serialized : service.Serialized trace order entities) (step : StoreStep log (.publish id options raws) r log') :
    ∃ order' entities', GrownBy c order order' ∧ service.Shows log' entities' ∧
      service.Serialized trace order' entities' ∧
      service.Stands trace order' log' c call (k.learn (.publish id options raws) r) := by
  obtain ⟨target, cmd, rfl, aggregate, entity, events, rfl, rendered, decided, encoded, rfl, rfl⟩ := may
  cases h with
  | @loaded _ target' _ front targets none seen =>
      obtain rfl := targets.unique (.inr ⟨cmd, rfl⟩)
      have same : entity.aggregateId = target' := by
        obtain ⟨⟨before, -, rfl⟩, -⟩ := seen
        exact (Renderer.render_eq_ok.mp rendered).1
      subst same
      cases r with
      | error e =>
          rw [step.publish_error]
          exact ⟨order, entities, .same, shows, serialized, .loaded targets none seen⟩
      | ok changeset =>
          by_cases empty : raws = []
          · have nothing : events = [] := by
              rw [← List.length_eq_zero_iff, ← rawEvents_length encoded, empty, List.length_nil]
            subst empty nothing
            cases step with
            | appended nonempty => exact absurd rfl nonempty
            | nothing =>
                exact ⟨order, entities, .same, shows, serialized,
                  .published seen rendered (.nothing none decided)⟩
          · have current := seen.current ordered shows rendered (step.publish_expected empty rfl)
            have decided' : service.decide (entities entity.aggregateId) cmd = .publish events := by
              rw [← current]
              exact decided
            rw [congrArg Entity.revision current] at step
            rcases shows.publish ordered decided' encoded step with ⟨nothing, -⟩ | ⟨entities', executes, shows'⟩
            · refine absurd ?_ empty
              rw [← List.length_eq_zero_iff, rawEvents_length encoded, nothing, List.length_nil]
            · have grown : GrownBy c order (order ++
                  [⟨c, (entity.aggregateId, cmd), ⟨events, changeset.revision⟩⟩]) := .one rfl
              refine ⟨_, entities', grown, shows', serialized.point invoked unreturned none executes, ?_⟩
              refine .published (seen.keep (fun _ moment => moment.grown grown unreturned) (step.stream_grows _))
                rendered (.effect (List.mem_append_right _ (List.mem_singleton_self _)))

theorem Stands.extend (h : service.Stands trace order log c call k)
    {event : Event Op Res (Nat × ServiceCall C) (ServiceResult S EL EH)} (quiet : ∀ call, event ≠ .invoked c call) :
    service.Stands (trace ++ [event]) order log c call k :=
  h.keep id (List.prefix_refl _) (fun _ _ seen => seen.extend quiet) fun _ => List.prefix_refl _

/-- A call of the store that a running call may make. -/
theorem Stands.step {i : Nat} {op : EventStoreCall} {r : op.Res} (h : service.Stands trace order log c call k)
    (may : (service.stages call).may k op) (invoked : .invoked c (i, call) ∈ trace)
    (unreturned : ∀ call result, .returned c call result ∉ trace) (ordered : log.Ordered)
    (shows : service.Shows log entities) (serialized : service.Serialized trace order entities)
    (step : StoreStep log op r log') : ∃ order' entities', GrownBy c order order' ∧
      service.Shows log' entities' ∧ service.Serialized trace order' entities' ∧
      service.Stands trace order' log' c call (k.learn op r) := by
  cases op with
  | load id =>
      rw [step.load_log]
      exact ⟨order, entities, .same, shows, serialized, h.load may shows serialized step⟩
  | publish id options raws => exact h.publish may invoked unreturned ordered shows serialized step

end Stands

/-! ### On a store that takes calls as wholes -/

section Whole

variable {S E C R EL EH : Type} [Inhabited S] [DomainEvent E] (service : CommandService S E C R EL EH)

variable {service}

end Whole
end CommandService

end WeeEvents
