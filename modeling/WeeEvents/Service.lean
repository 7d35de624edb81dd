import WeeEvents.AtomicStore
import WeeEvents.Renderer
import WeeEvents.Json

/-!
# Services

A service loads an entity, lets the handler of a command act on it, and reloads
it when the handler asks for that. There are two dispatchers: the one `service!`
generates, and the one of the service builder, which finds its handler in a list.
-/
namespace WeeEvents
open Foundation

inductive CodecError where
  | encode (e : EncodeError)
  | decode (e : DecodeError)
  deriving DecidableEq

/-- A structured rejection from the domain layer. -/
structure Rejection where
  code : String
  message : String
  context : Json := .object []

inductive ServiceError (E : Type) where
  | rejection (r : Rejection)
  | store (e : E)
  | codec (e : CodecError)

/-- Typed events: their type and how an encoding serialises them. -/
class DomainEvent (E : Type) where
  eventType : E → EventType
  encode : Encoding → E → Except EncodeError EventData

/-- The program with its error converted, as `map_err` does. -/
def mapErr {Op : Type} {Res : Op → Type} {α ε ε' : Type} (p : Program Op Res (Except ε α))
    (f : ε → ε') : Program Op Res (Except ε' α) :=
  p.bind fun r => .ret (r.mapError f)

theorem runs_of_mapErr {Op σ α ε ε' : Type} {Res : Op → Type}
    {step : σ → (op : Op) → Res op → σ → Prop} {p : Program Op Res (Except ε α)} {f : ε → ε'}
    {s s' : σ} {r : Except ε' α} (run : Program.Runs step s (mapErr p f) r s') :
    ∃ inner, r = inner.mapError f ∧ Program.Runs step s p inner s' := by
  obtain ⟨inner, s₁, before, after⟩ := Program.Runs.of_bind run
  cases after
  exact ⟨inner, rfl, before⟩

/-! ### Publishing -/

def rawEvents {E : Type} [DomainEvent E] (encoding : Encoding) :
    List E → Except EncodeError (List RawEvent)
  | [] => .ok []
  | event :: rest =>
      match DomainEvent.encode encoding event with
      | .error e => .error e
      | .ok data =>
          match rawEvents encoding rest with
          | .error e => .error e
          | .ok raws => .ok (⟨DomainEvent.eventType event, data⟩ :: raws)

/-- `Publisher::publish` -/
def publishEvents {S E : Type} [DomainEvent E] (encoding : Encoding) (entity : Entity S)
    (events : List E) : ClientProgram (Except (ServiceError Error) ChangeSet) :=
  match rawEvents encoding events with
  | .error e => .ret (.error (.codec (.encode e)))
  | .ok raws => mapErr (eventStoreCall (.publish entity.aggregateId
      { expectedRevision := some entity.revision } raws)) .store

/-! ### Dispatch -/

inductive HandlerOutcome (S : Type) where
  | entity (entity : Entity S)
  | reload

/-- `into_handler_outcome` of a handler that returns the entity. -/
def HandlerOutcome.ofEntity {S E : Type} (r : Except E (Entity S)) : Except E (HandlerOutcome S) :=
  r.map .entity

/-- `into_handler_outcome` of a handler that returns nothing. -/
def HandlerOutcome.ofUnit {S E : Type} (r : Except E Unit) : Except E (HandlerOutcome S) :=
  r.map fun _ => .reload

section Dispatch

variable {Op : Type} {Res : Op → Type} {Ctx S C EL EH : Type}

abbrev Loader (Op : Type) (Res : Op → Type) (S EL : Type) : Type :=
  AggregateId → Program Op Res (Except EL (Entity S))

abbrev Handler (Op : Type) (Res : Op → Type) (S C EH : Type) : Type :=
  Entity S → C → Program Op Res (Except EH (HandlerOutcome S))

/-- The generated `dispatch_command`. -/
def dispatchCommand (load : Loader Op Res S EL) (handle : Handler Op Res S C EH) (lift : EL → EH)
    (id : AggregateId) (cmd : C) : Program Op Res (Except EH (Entity S)) :=
  (mapErr (load id) lift).andThen fun entity =>
  (handle entity cmd).andThen fun
    | .entity entity => .ret (.ok entity)
    | .reload => mapErr (load id) lift

/-- The terminator of the handler list. -/
structure EmptyHandlers where

/-- A cell of the handler list: the handler of command `C`. -/
structure HandlerList (C H Tail : Type) where
  handler : H
  tail : Tail

structure Here where

structure There (Idx : Type) where

/-- The handler of command `C` is at position `Idx` of the list. -/
class HandleCommand (Op : Type) (Res : Op → Type) (C Idx Ctx S E Handlers : Type) where
  handle : Handlers → Ctx → Handler Op Res S C E

instance (C Tail : Type) : HandleCommand Op Res C Here Ctx S EH
    (HandlerList C (Ctx → Handler Op Res S C EH) Tail) where
  handle handlers ctx := handlers.handler ctx

instance (C Other H Tail Idx : Type) [HandleCommand Op Res C Idx Ctx S EH Tail] :
    HandleCommand Op Res C (There Idx) Ctx S EH (HandlerList Other H Tail) where
  handle handlers ctx := HandleCommand.handle Idx handlers.tail ctx

structure BuiltService (Op : Type) (Res : Op → Type) (Ctx S Handlers EL EH : Type) where
  factory : Program Op Res (Except Error Ctx)
  loader : Ctx → Loader Op Res S EL
  handlers : Handlers
  ofError : Error → EL
  ofLoader : EL → EH

namespace BuiltService

variable {Handlers Idx : Type} (service : BuiltService Op Res Ctx S Handlers EL EH)

def load (id : AggregateId) : Program Op Res (Except EL (Entity S)) :=
  (mapErr service.factory service.ofError).andThen fun ctx => service.loader ctx id

def execute (Idx : Type) [HandleCommand Op Res C Idx Ctx S EH Handlers] (id : AggregateId) (cmd : C) :
    Program Op Res (Except EH (Entity S)) :=
  (mapErr (mapErr service.factory service.ofError) service.ofLoader).andThen fun ctx =>
  (mapErr (service.loader ctx id) service.ofLoader).andThen fun entity =>
  (HandleCommand.handle Idx service.handlers ctx entity cmd).andThen fun
    | .entity entity => .ret (.ok entity)
    | .reload => mapErr (service.loader ctx id) service.ofLoader

/-- The builder's dispatch is the generated one, in the context the factory makes. -/
theorem execute_eq [HandleCommand Op Res C Idx Ctx S EH Handlers] (id : AggregateId) (cmd : C) :
    service.execute Idx id cmd =
      (mapErr (mapErr service.factory service.ofError) service.ofLoader).andThen fun ctx =>
        dispatchCommand (service.loader ctx) (HandleCommand.handle Idx service.handlers ctx)
          service.ofLoader id cmd := rfl

end BuiltService
end Dispatch

/-! ### Loaders and handlers over an event store -/

section Common

variable {S R EL C E EH : Type}

/-- A loader that loads the stream and renders it. -/
def loadAndRender [Inhabited S] (renderer : Renderer S R) (ofStore : Error → EL)
    (ofRender : RenderError R → EL) : Loader EventStoreCall EventStoreCall.Res S EL := fun id =>
  (mapErr (eventStoreCall (.load id)) ofStore).andThen fun aggregate =>
  .ret ((renderer.render aggregate).mapError ofRender)

/-- What a handler decides from the entity and the command. -/
inductive Decision (E EH : Type) where
  | reject (e : EH)
  | accept
  | publish (events : List E)

/-- A handler that publishes at most once, as its last step. -/
def decideAndPublish [DomainEvent E] (encoding : Encoding) (decide : Entity S → C → Decision E EH)
    (ofPublish : ServiceError Error → EH) : Handler EventStoreCall EventStoreCall.Res S C EH :=
  fun entity cmd =>
    match decide entity cmd with
    | .reject e => .ret (HandlerOutcome.ofUnit (.error e))
    | .accept => .ret (HandlerOutcome.ofUnit (.ok ()))
    | .publish events => (publishEvents encoding entity events).bind fun r =>
        .ret (HandlerOutcome.ofUnit ((r.mapError ofPublish).map fun _ => ()))

end Common
end WeeEvents
