import WeeEvents.Service
import WeeEvents.Restate.Client

/-!
# The generated Restate binding

The handler methods that `service!` emits, in both variants: the key is parsed,
a `run` block loads, handles and reloads, and after the block the effects are
sent. Away from crashes a method does what the in-process dispatcher does.
-/
namespace WeeEvents.Restate
open Foundation

/-- A terminal error, the only kind the generated code makes. -/
structure HandlerError where
  message : String
  deriving DecidableEq, Repr

/-- The text of an error. -/
class Display (E : Type) where
  toText : E → String

instance : Display JsonError := ⟨JsonError.message⟩

instance : Display AggregateId.ParseError where
  toText
    | .missingColon => "aggregate ID must contain a colon separating type and key"
    | .emptyType => "aggregate type (before colon) must not be empty"
    | .emptyKey => "aggregate key (after colon) must not be empty"

instance [Display CustomError] : Display Error where
  toText
    | .revisionConflict expected actual =>
        "revision conflict: expected " ++ expected.text ++ ", found " ++ actual.text
    | .encodingMismatch expected actual =>
        "encoding mismatch: expected " ++ expected ++ ", actual " ++ actual
    | .unhandledEventType eventType => "unhandled event type: " ++ eventType
    | .custom e => Display.toText e

class IntoHandlerError (E : Type) where
  toHandlerError : E → HandlerError

instance [Display Error] : IntoHandlerError Error := ⟨fun e => ⟨Display.toText e⟩⟩

instance (E : Type) [SerdeJson] [Display E] [Display CodecError] :
    IntoHandlerError (ServiceError E) where
  toHandlerError
    | .rejection r => ⟨SerdeJson.toText (.object
        [("code", .string r.code), ("context", r.context), ("message", .string r.message)])⟩
    | .codec err => ⟨Display.toText err⟩
    | .store err => ⟨Display.toText err⟩

def jsonHandlerError (e : JsonError) : HandlerError := ⟨Display.toText e⟩

/-! ### What is sent and returned -/

structure EntityResponse where
  aggregate : AggregateId
  revision : Revision
  state : Json

structure CommandRequest where
  name : CommandName
  target : AggregateId
  command : Json

structure Metadata where
  correlationId : String
  causationId : Option String := none
  idempotencyKey : Option String := none

structure ExecuteNotification where
  command : CommandRequest
  response : EntityResponse
  metadata : Metadata

def toEntityResponse {S : Type} [Serialize S] (entity : Entity S) :
    Except HandlerError EntityResponse :=
  match Serialize.toValue entity.state with
  | .error e => .error (jsonHandlerError e)
  | .ok state => .ok ⟨entity.aggregateId, entity.revision, state⟩

inductive SideEffectFilter where
  | all
  | name (name : CommandName)
  | names (names : List CommandName)
  | predicate (f : ExecuteNotification → Bool)

def SideEffectFilter.matches (filter : SideEffectFilter) (notification : ExecuteNotification) : Bool :=
  match filter with
  | .all => true
  | .name wanted => notification.command.name = wanted
  | .names wanted => wanted.contains notification.command.name
  | .predicate f => f notification

/-- A declared effect: the workflow and when it runs. -/
structure EffectEntry where
  workflow : String
  filter : SideEffectFilter

/-- A workflow started by a notification, under its correlation id. -/
structure EffectSend where
  workflow : String
  correlationId : String
  notification : ExecuteNotification

/-- The effect clients called after the block, in declaration order. -/
def effectSends (effects : List EffectEntry) (notification : ExecuteNotification) :
    List EffectSend :=
  (effects.filter (·.filter.matches notification)).map fun entry =>
    ⟨entry.workflow, notification.metadata.correlationId, notification⟩

/-- `correlation_id`, with the text of the ulid it draws. -/
def correlationId (id : AggregateId) (command : CommandName) (ulid : String) : String :=
  id.toText ++ "-" ++ command.text ++ "-" ++ ulid

/-! ### The methods -/

/-- One invocation once the key is parsed: the closure of `ContextSideEffects::run`, given the
ulid it may draw, and what follows the block's result. -/
structure Invocation (Op : Type) (Res : Op → Type) (T : Type) where
  block : String → Program Op Res (Except HandlerError T)
  finish : T → EntityResponse × List EffectSend

section Methods

variable {Op : Type} {Res : Op → Type} {S C EL EH : Type} [Serialize S] [Serialize C]
  [IntoHandlerError EL] [IntoHandlerError EH]

def parseKey (key : String) : Except HandlerError AggregateId :=
  (AggregateId.fromStr key).mapError fun e => ⟨Display.toText e⟩

/-- Load, handle and reload, as both variants of the block begin. -/
def handleCommand (load : Loader Op Res S EL) (handle : Handler Op Res S C EH) (id : AggregateId)
    (command : C) : Program Op Res (Except HandlerError (Entity S)) :=
  (mapErr (load id) IntoHandlerError.toHandlerError).andThen fun entity =>
  (mapErr (handle entity command) IntoHandlerError.toHandlerError).andThen fun
    | .entity entity => .ret (.ok entity)
    | .reload => mapErr (load id) IntoHandlerError.toHandlerError

/-- The method of a command in a service without effects. -/
def commandMethod (load : Loader Op Res S EL) (handle : Handler Op Res S C EH) (key : String)
    (command : C) : Except HandlerError (Invocation Op Res EntityResponse) :=
  (parseKey key).map fun id =>
    { block := fun _ => (handleCommand load handle id command).andThen fun entity =>
        .ret (toEntityResponse entity)
      finish := fun response => (response, []) }

/-- What the block of a service with effects returns. -/
def notificationFor (commandName : CommandName) (id : AggregateId) (command : C) (entity : Entity S)
    (ulid : String) : Except HandlerError ExecuteNotification :=
  match toEntityResponse entity with
  | .error e => .error e
  | .ok response =>
      match Serialize.toValue command with
      | .error e => .error (jsonHandlerError e)
      | .ok value => .ok
          { command := ⟨commandName, id, value⟩
            response
            metadata := { correlationId := correlationId id commandName ulid } }

/-- The method of a command in a service with effects. -/
def commandMethodWithEffects (effects : List EffectEntry) (commandName : CommandName)
    (load : Loader Op Res S EL) (handle : Handler Op Res S C EH) (key : String) (command : C) :
    Except HandlerError (Invocation Op Res ExecuteNotification) :=
  (parseKey key).map fun id =>
    { block := fun ulid => (handleCommand load handle id command).andThen fun entity =>
        .ret (notificationFor commandName id command entity ulid)
      finish := fun notification => (notification.response, effectSends effects notification) }

/-- The invocation without a crash: the block runs once and its result is used. -/
def Invocation.complete {T : Type} (invocation : Invocation Op Res T) (ulid : String) :
    Program Op Res (Except HandlerError (EntityResponse × List EffectSend)) :=
  (invocation.block ulid).bind fun r => .ret (r.map invocation.finish)

/-! ### The method and the in-process dispatcher -/

/-- What the client sees of a finished method: the entity, or that it failed. -/
def answered (r : Except HandlerError (EntityResponse × List EffectSend)) : Option EntityResponse :=
  r.toOption.map Prod.fst

/-- What the caller sees of a finished dispatch, with its state as JSON. -/
def dispatched (json : S → Json) (r : Except EH (Entity S)) : Option EntityResponse :=
  r.toOption.map fun entity => ⟨entity.aggregateId, entity.revision, json entity.state⟩

omit [Serialize S] [Serialize C] in
/-- Both dispatchers make the same calls; they differ in how they convert errors. -/
theorem handleCommand_eq_dispatch (load : Loader Op Res S EL) (handle : Handler Op Res S C EH)
    (lift : EL → EH) (id : AggregateId) (command : C) :
    ((handleCommand load handle id command).bind fun r => .ret r.toOption) =
      (dispatchCommand load handle lift id command).bind fun r => .ret r.toOption := by
  simp only [handleCommand, dispatchCommand, mapErr, Program.andThen, Program.bind_assoc]
  apply Program.bind_congr
  intro loaded
  cases loaded with
  | error e => rfl
  | ok entity =>
      simp only [Except.mapError, Program.bind_ret, Program.bind_assoc]
      apply Program.bind_congr
      intro handled
      cases handled with
      | error e => rfl
      | ok outcome =>
          cases outcome with
          | entity entity => rfl
          | reload =>
              simp only [Program.bind_ret, Program.bind_assoc]
              apply Program.bind_congr
              intro reloaded
              cases reloaded <;> rfl

omit [Serialize S] [Serialize C] in
/-- A block that answers every entity with its own response is seen as the dispatch is. -/
theorem answered_eq_dispatched {T : Type} {load : Loader Op Res S EL}
    {handle : Handler Op Res S C EH} (lift : EL → EH) {json : S → Json} {id : AggregateId}
    {command : C} {respond : Entity S → Except HandlerError T}
    {finish : T → EntityResponse × List EffectSend}
    (responds : ∀ entity, ∃ t, respond entity = .ok t ∧
      (finish t).1 = ⟨entity.aggregateId, entity.revision, json entity.state⟩) :
    (((handleCommand load handle id command).andThen fun entity => .ret (respond entity)).bind
        fun r => .ret (answered (r.map finish))) =
      (dispatchCommand load handle lift id command).bind fun r => .ret (dispatched json r) := by
  have seen : (((handleCommand load handle id command).andThen fun entity =>
      .ret (respond entity)).bind fun r => .ret (answered (r.map finish))) =
      ((handleCommand load handle id command).bind fun r => .ret r.toOption).bind fun entity =>
        .ret (entity.map fun entity =>
          (⟨entity.aggregateId, entity.revision, json entity.state⟩ : EntityResponse)) := by
    simp only [Program.andThen, Program.bind_assoc]
    apply Program.bind_congr
    intro r
    cases r with
    | error e => rfl
    | ok entity =>
        obtain ⟨t, responded, first⟩ := responds entity
        simp only [Program.bind_ret, responded]
        exact congrArg (fun response => Program.ret (some response)) first
  rw [seen, handleCommand_eq_dispatch load handle lift, Program.bind_assoc]
  rfl

/-- For an identifier that is read back from its text, the method on the object of that name makes
the calls of the dispatcher on the same aggregate and is answered alike, with or without effects. -/
theorem binding_agrees_with_dispatch (load : Loader Op Res S EL) (handle : Handler Op Res S C EH)
    (lift : EL → EH) (json : S → Json)
    (states : ∀ state : S, Serialize.toValue state = .ok (json state))
    (commands : ∀ command : C, ∃ value, Serialize.toValue command = .ok value) {id : AggregateId}
    (wf : id.WellFormed) (command : C) (ulid : String) :
    (∃ invocation, commandMethod load handle id.toText command = .ok invocation ∧
      ((invocation.complete ulid).bind fun r => .ret (answered r)) =
        (dispatchCommand load handle lift id command).bind fun r => .ret (dispatched json r)) ∧
    ∀ (effects : List EffectEntry) (commandName : CommandName), ∃ invocation,
      commandMethodWithEffects effects commandName load handle id.toText command = .ok invocation ∧
      ((invocation.complete ulid).bind fun r => .ret (answered r)) =
        (dispatchCommand load handle lift id command).bind fun r => .ret (dispatched json r) := by
  have parsed : parseKey id.toText = .ok id := by rw [parseKey, AggregateId.fromStr_toText wf]; rfl
  have response : ∀ entity : Entity S, toEntityResponse entity =
      .ok ⟨entity.aggregateId, entity.revision, json entity.state⟩ := by
    intro entity
    simp only [toEntityResponse, states]
  constructor
  · refine ⟨_, by rw [commandMethod, parsed]; rfl, ?_⟩
    rw [Invocation.complete, Program.bind_assoc]
    exact answered_eq_dispatched lift fun entity => ⟨_, response entity, rfl⟩
  · intro effects commandName
    refine ⟨_, by rw [commandMethodWithEffects, parsed]; rfl, ?_⟩
    rw [Invocation.complete, Program.bind_assoc]
    apply answered_eq_dispatched lift
    intro entity
    obtain ⟨value, serialised⟩ := commands command
    have notified : notificationFor commandName id command entity ulid =
        .ok ⟨⟨commandName, id, value⟩, ⟨entity.aggregateId, entity.revision, json entity.state⟩,
          { correlationId := correlationId id commandName ulid }⟩ := by
      simp only [notificationFor, response, serialised]
    exact ⟨_, notified, rfl⟩

end Methods

section Gauge

instance : IntoHandlerError Empty := ⟨Empty.elim⟩

/-- A service that reads a gauge by its identifier. -/
def loadGauge : Loader AggregateId (fun _ => Nat) Nat Empty := fun id =>
  .call id fun value => .ret (.ok ⟨id, Revision.zero, value⟩)

def leaveGauge : Handler AggregateId (fun _ => Nat) Nat Unit Empty := fun entity _ =>
  .ret (HandlerOutcome.ofEntity (.ok entity))

def gaugeJson (n : Nat) : Json := .number (toString n)

def plainGauge : AggregateId := ⟨⟨"gauge"⟩, "boiler"⟩

/-- `AggregateId::new("plant:gauge", "boiler")` -/
def nestedGauge : AggregateId := ⟨⟨"plant:gauge"⟩, "boiler"⟩

/-- One workflow for every command and one that no command starts. -/
def gaugeEffects : List EffectEntry :=
  [⟨"audit", .all⟩, ⟨"archive", .names []⟩]

def readGauge : CommandName := ⟨"read"⟩

theorem gauge_agrees :
    (∃ invocation,
      commandMethod loadGauge leaveGauge plainGauge.toText () = .ok invocation ∧
        ((invocation.complete "").bind fun r => .ret (answered r)) =
          (dispatchCommand loadGauge leaveGauge id plainGauge ()).bind fun r =>
            .ret (dispatched gaugeJson r)) ∧
    ∃ invocation,
      commandMethodWithEffects gaugeEffects readGauge loadGauge leaveGauge plainGauge.toText () =
          .ok invocation ∧
        ((invocation.complete "").bind fun r => .ret (answered r)) =
          (dispatchCommand loadGauge leaveGauge id plainGauge ()).bind fun r =>
            .ret (dispatched gaugeJson r) := by
  have wf : plainGauge.WellFormed := by decide
  obtain ⟨plain, withEffects⟩ := binding_agrees_with_dispatch loadGauge leaveGauge id gaugeJson
    (fun _ => rfl) (fun _ => ⟨_, rfl⟩) wf () ""
  exact ⟨plain, withEffects gaugeEffects readGauge⟩

/-- The key of an identifier whose type has a colon names another aggregate. -/
theorem nested_gauge_loads_another : ¬ ∀ id : AggregateId, ∃ invocation,
    commandMethod loadGauge leaveGauge id.toText () = .ok invocation ∧
      ((invocation.complete "").bind fun r => .ret (answered r)) =
        (dispatchCommand loadGauge leaveGauge (fun e => e) id ()).bind fun r =>
          .ret (dispatched gaugeJson r) := by
  intro claim
  obtain ⟨invocation, method, same⟩ := claim nestedGauge
  have parsed : AggregateId.fromStr nestedGauge.toText = .ok ⟨⟨"plant"⟩, "gauge:boiler"⟩ := by
    decide +kernel
  rw [commandMethod, parseKey, parsed] at method
  cases method
  injection same with other
  exact absurd other (by decide)

end Gauge
end WeeEvents.Restate
