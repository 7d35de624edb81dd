import WeeEvents.Service
import WeeEvents.Memory.Runtime
import WeeEvents.Sqlite.Runtime

/-!
# Commands that report failure

A command that fails has changed nothing, unless its events were published and
the entity could not be reloaded after them.
-/
namespace WeeEvents
open Foundation

section Parts

variable {S R EL C E EH : Type} [Inhabited S] {renderer : Renderer S R} {ofStore : Error → EL}
  {ofRender : RenderError R → EL} {id : AggregateId} {log log' : EventLog}

/-- Why the entity of a log cannot be loaded: the store fails, or the rendering does. -/
def LoadFails (renderer : Renderer S R) (ofStore : Error → EL) (ofRender : RenderError R → EL)
    (id : AggregateId) (log : EventLog) (e : EL) : Prop :=
  (∃ storeError, e = ofStore storeError) ∨
    ∃ renderError, renderer.render (Aggregate.fromEvents id (log.stream id)) = .error renderError ∧
      e = ofRender renderError

/-- What a loader returns of a log: its rendering, or why there is none. -/
def LoadReturns (renderer : Renderer S R) (ofStore : Error → EL) (ofRender : RenderError R → EL)
    (id : AggregateId) (log : EventLog) : Except EL (Entity S) → Prop
  | .ok entity => renderer.render (Aggregate.fromEvents id (log.stream id)) = .ok entity
  | .error e => LoadFails renderer ofStore ofRender id log e

theorem runs_loadAndRender {r : Except EL (Entity S)}
    (run : Program.Runs StoreStep log (loadAndRender renderer ofStore ofRender id) r log') :
    log' = log ∧ LoadReturns renderer ofStore ofRender id log r := by
  rcases run.of_andThen with ⟨e, rfl, loading⟩ | ⟨aggregate, log₁, loading, rendering⟩
  · obtain ⟨inner, same, loaded⟩ := runs_of_mapErr loading
    have unchanged := (Program.runs_perform.mp loaded).load_log
    cases inner with
    | ok aggregate => cases same
    | error storeError =>
        cases same
        exact ⟨unchanged, .inl ⟨storeError, rfl⟩⟩
  · obtain ⟨inner, same, loaded⟩ := runs_of_mapErr loading
    cases inner with
    | error e => cases same
    | ok loadedAggregate =>
        cases same
        obtain ⟨rfl, rfl⟩ := (Program.runs_perform.mp loaded).load_ok
        obtain ⟨rfl, rfl⟩ := Program.runs_ret.mp rendering
        refine ⟨rfl, ?_⟩
        cases rendered : renderer.render (Aggregate.fromEvents id (log'.stream id)) with
        | ok entity => exact rendered
        | error renderError => exact .inr ⟨renderError, rendered, rfl⟩

variable [DomainEvent E] {encoding : Encoding} {decide : Entity S → C → Decision E EH}
  {ofPublish : ServiceError Error → EH} {entity : Entity S} {cmd : C}

/-- The handler decided to publish, and its events were appended to the log. -/
def Published (encoding : Encoding) (decide : Entity S → C → Decision E EH) (entity : Entity S)
    (cmd : C) (log log' : EventLog) : Prop :=
  ∃ events raws changeset, decide entity cmd = .publish events ∧
    rawEvents encoding events = .ok raws ∧
    StoreStep log (.publish entity.aggregateId { expectedRevision := some entity.revision } raws)
      (.ok changeset) log'

/-- A handler that fails leaves the log, and one that does not asks for the reload. -/
def HandlerReturns (encoding : Encoding) (decide : Entity S → C → Decision E EH) (entity : Entity S)
    (cmd : C) (log log' : EventLog) : Except EH (HandlerOutcome S) → Prop
  | .error _ => log' = log
  | .ok outcome => outcome = .reload ∧ (log' = log ∨ Published encoding decide entity cmd log log')

omit [Inhabited S] in
theorem runs_decideAndPublish {r : Except EH (HandlerOutcome S)}
    (run : Program.Runs StoreStep log (decideAndPublish encoding decide ofPublish entity cmd) r log') :
    HandlerReturns encoding decide entity cmd log log' r := by
  unfold decideAndPublish at run
  split at run
  · obtain ⟨rfl, rfl⟩ := Program.runs_ret.mp run
    rfl
  · obtain ⟨rfl, rfl⟩ := Program.runs_ret.mp run
    exact ⟨rfl, .inl rfl⟩
  · next events decided =>
      obtain ⟨published, log₁, publishing, finish⟩ := run.of_bind
      obtain ⟨rfl, rfl⟩ := Program.runs_ret.mp finish
      unfold publishEvents at publishing
      split at publishing
      · obtain ⟨rfl, rfl⟩ := Program.runs_ret.mp publishing
        rfl
      · next raws encoded =>
          obtain ⟨inner, rfl, stored⟩ := runs_of_mapErr publishing
          have step := Program.runs_perform.mp stored
          cases inner with
          | error e => exact step.publish_error
          | ok changeset => exact ⟨rfl, .inr ⟨events, raws, changeset, decided, encoded, step⟩⟩

/-- The events were published, and the entity cannot be loaded after them. -/
def ReloadFailed (renderer : Renderer S R) (ofStore : Error → EL) (ofRender : RenderError R → EL)
    (encoding : Encoding) (decide : Entity S → C → Decision E EH) (id : AggregateId) (cmd : C)
    (log log' : EventLog) (e : EL) : Prop :=
  ∃ entity, renderer.render (Aggregate.fromEvents id (log.stream id)) = .ok entity ∧
    Published encoding decide entity cmd log log' ∧ LoadFails renderer ofStore ofRender id log' e

/-- A command that fails has left the log, or could not be reloaded. -/
theorem runs_dispatchCommand {handle : Handler EventStoreCall EventStoreCall.Res S C EH}
    {lift : EL → EH} {e : EH} (handles : handle = decideAndPublish encoding decide ofPublish)
    (run : Program.Runs StoreStep log
      (dispatchCommand (loadAndRender renderer ofStore ofRender) handle lift id cmd) (.error e) log') :
    log' = log ∨ ∃ el, e = lift el ∧
      ReloadFailed renderer ofStore ofRender encoding decide id cmd log log' el := by
  subst handles
  rcases run.of_andThen with ⟨_, _, loading⟩ | ⟨entity, log₁, loading, handling⟩
  · obtain ⟨inner, -, loaded⟩ := runs_of_mapErr loading
    exact .inl (runs_loadAndRender loaded).1
  · obtain ⟨inner, same, loaded⟩ := runs_of_mapErr loading
    cases inner with
    | error el => cases same
    | ok loadedEntity =>
        cases same
        obtain ⟨rfl, rendered⟩ := runs_loadAndRender loaded
        rcases handling.of_andThen with ⟨_, _, handled⟩ | ⟨outcome, log₂, handled, reloading⟩
        · exact .inl (runs_decideAndPublish handled)
        · obtain ⟨rfl, appended⟩ := runs_decideAndPublish handled
          obtain ⟨reloaded, same, rerun⟩ := runs_of_mapErr reloading
          cases reloaded with
          | ok entity' => cases same
          | error el =>
              cases same
              obtain ⟨rfl, fails⟩ := runs_loadAndRender rerun
              rcases appended with unchanged | published
              · exact .inl unchanged
              · exact .inr ⟨el, rfl, entity, rendered, published, fails⟩

end Parts

/-- Through either dispatcher and on any store: a command that fails alone has left every stream
as it was, unless its events were published and the reload after them failed. -/
theorem failed_command_changed_nothing {S R EL C E EH Ctx : Type} [Inhabited S] [DomainEvent E]
    (runtime : StoreRuntime) (renderer : Ctx → Renderer S R) (ofStore : Error → EL)
    (ofRender : RenderError R → EL) (encoding : Encoding)
    (decide : Ctx → Entity S → C → Decision E EH) (ofPublish : ServiceError Error → EH)
    (id : AggregateId) (cmd : C) (e : EH) {s s' : runtime.State} {log : EventLog}
    (represents : runtime.Represents s log) :
    (∀ (ctx : Ctx) (lift : EL → EH),
      runtime.Runs s (dispatchCommand (loadAndRender (renderer ctx) ofStore ofRender)
        (decideAndPublish encoding (decide ctx) ofPublish) lift id cmd) (.error e) s' →
      ∃ log', runtime.Represents s' log' ∧ (log' = log ∨ ∃ el, e = lift el ∧
        ReloadFailed (renderer ctx) ofStore ofRender encoding (decide ctx) id cmd log log' el)) ∧
    ∀ (Handlers Idx : Type) [HandleCommand EventStoreCall EventStoreCall.Res C Idx Ctx S EH Handlers]
      (service : BuiltService EventStoreCall EventStoreCall.Res Ctx S Handlers EL EH)
      (made : Except Error Ctx), service.factory = .ret made →
      (∀ ctx, service.loader ctx = loadAndRender (renderer ctx) ofStore ofRender) →
      (∀ ctx, HandleCommand.handle Idx service.handlers ctx =
        decideAndPublish encoding (decide ctx) ofPublish) →
      runtime.Runs s (service.execute Idx id cmd) (.error e) s' →
      ∃ log', runtime.Represents s' log' ∧ (log' = log ∨ ∃ ctx el, made = .ok ctx ∧
        e = service.ofLoader el ∧
        ReloadFailed (renderer ctx) ofStore ofRender encoding (decide ctx) id cmd log log' el) := by
  constructor
  · intro ctx lift run
    obtain ⟨log', represents', onLog⟩ := run.onLog represents
    exact ⟨log', represents', runs_dispatchCommand rfl onLog⟩
  · intro Handlers Idx handleCommand service made factory loads handles run
    obtain ⟨log', represents', onLog⟩ := run.onLog represents
    refine ⟨log', represents', ?_⟩
    rw [service.execute_eq, factory] at onLog
    rcases onLog.of_andThen with ⟨_, _, making⟩ | ⟨ctx, log₁, making, dispatching⟩
    · exact .inl (Program.runs_ret.mp making).2
    · obtain ⟨same, rfl⟩ := Program.runs_ret.mp making
      have here : made = .ok ctx := by
        cases made with
        | ok ctx' => rw [Except.ok.inj same]
        | error e => cases same
      rw [loads ctx] at dispatching
      rcases runs_dispatchCommand (handles ctx) dispatching with unchanged | ⟨el, lifted, failed⟩
      · exact .inl unchanged
      · exact .inr ⟨ctx, el, here, lifted, failed⟩

section Counter

open Memory

inductive CounterEvent where
  | incremented

instance : DomainEvent CounterEvent where
  eventType _ := ⟨"incremented"⟩
  encode encoding _ := .ok ⟨encoding, []⟩

def counterA : AggregateId := ⟨⟨"counter"⟩, "a"⟩

/-- No rule for any event. -/
def strictRenderer : Renderer Nat DecodeError := .new

def ignoringRenderer : Renderer Nat DecodeError :=
  Renderer.new.registerIgnore (.exact ⟨"incremented"⟩)

def counterLoader (renderer : Renderer Nat DecodeError) :
    Loader EventStoreCall EventStoreCall.Res Nat Error :=
  loadAndRender renderer id (RenderError.into .decode)

/-- A service of one command, given what its handler decides. -/
def counterService (renderer : Renderer Nat DecodeError)
    (decision : Decision CounterEvent (ServiceError Error)) :
    ClientProgram (Except (ServiceError Error) (Entity Nat)) :=
  dispatchCommand (counterLoader renderer) (decideAndPublish .json (fun _ _ => decision) id) .store
    counterA ()

abbrev CounterHandlers : Type := HandlerList Unit
  (Unit → Handler EventStoreCall EventStoreCall.Res Nat Unit (ServiceError Error)) EmptyHandlers

/-- The same service, built. -/
def builtService (renderer : Renderer Nat DecodeError)
    (decision : Decision CounterEvent (ServiceError Error)) : BuiltService
    EventStoreCall EventStoreCall.Res Unit Nat CounterHandlers Error (ServiceError Error) where
  factory := .ret (.ok ())
  loader _ := counterLoader renderer
  handlers := ⟨fun _ => decideAndPublish .json (fun _ _ => decision) id, ⟨⟩⟩
  ofError := id
  ofLoader := .store

def onMemory {α : Type} (p : ClientProgram α) (b : Backing) : Option (α × Backing) :=
  (p.implement memoryStore.body).eval (fun op b => serveMemory 0 op b) b

theorem onMemory_runs {α : Type} {p : ClientProgram α} {b b' : Backing} {a : α}
    (ran : onMemory p b = some (a, b')) : memoryRuntime.Runs b p a b' :=
  Program.runs_iff_eval.mpr ran

def atLimit : Decision CounterEvent (ServiceError Error) :=
  .reject (.rejection { code := "LIMIT", message := "limit reached" })

theorem stream_kept {b b' : Backing} {log log' : EventLog} (before : AtRest b log)
    (after : AtRest b' log') (same : b'.events counterA = b.events counterA) :
    log'.stream counterA = log.stream counterA := by
  rw [← after.events, ← before.events, same]

/-- A command refused after one that published, by either dispatcher. -/
theorem rejection_changed_nothing : ∃ b log, AtRest b log ∧ (log.stream counterA).length = 1 ∧
    (∃ e b' log', memoryRuntime.Runs b (counterService ignoringRenderer atLimit) (.error e) b' ∧
      AtRest b' log' ∧ log'.stream counterA = log.stream counterA) ∧
    ∃ e b' log', memoryRuntime.Runs b
      ((builtService ignoringRenderer atLimit).execute Here counterA ()) (.error e) b' ∧
      AtRest b' log' ∧ log'.stream counterA = log.stream counterA := by
  have refused : ((onMemory (counterService ignoringRenderer (.publish [.incremented]))
      (Backing.new (.countingFrom 1))).bind fun first =>
        (onMemory (counterService ignoringRenderer atLimit) first.2).bind fun second =>
          (onMemory ((builtService ignoringRenderer atLimit).execute Here counterA ()) first.2).map
            fun third => ((first.2.events counterA).length, second.1.isOk, third.1.isOk,
              decide (second.2.events counterA = first.2.events counterA ∧
                third.2.events counterA = first.2.events counterA))) =
      some (1, false, false, true) := by decide +kernel
  obtain ⟨⟨_, b⟩, published, rest⟩ := Option.bind_eq_some_iff.mp refused
  obtain ⟨⟨result, b₁⟩, dispatched, rest⟩ := Option.bind_eq_some_iff.mp rest
  obtain ⟨⟨built, b₂⟩, executed, seen⟩ := Option.map_eq_some_iff.mp rest
  obtain ⟨one, seen⟩ := Prod.mk.inj seen
  obtain ⟨failed, seen⟩ := Prod.mk.inj seen
  obtain ⟨failed', same⟩ := Prod.mk.inj seen
  obtain ⟨same₁, same₂⟩ := of_decide_eq_true same
  obtain ⟨log, atRest, _⟩ := (onMemory_runs published).onLog (atRest_new (.countingFrom 1))
  have both := fun e b' => @failed_command_changed_nothing Nat DecodeError Error Unit CounterEvent
    (ServiceError Error) Unit _ _ memoryRuntime (fun _ => ignoringRenderer) id
    (RenderError.into .decode) .json (fun _ _ _ => atLimit) id counterA () e b b' log atRest
  refine ⟨b, log, atRest, by rw [← atRest.events]; exact one, ?_, ?_⟩
  · cases result with
    | ok entity => cases failed
    | error e =>
        obtain ⟨log', atRest', _⟩ := (both e b₁).1 () .store (onMemory_runs dispatched)
        exact ⟨e, b₁, log', onMemory_runs dispatched, atRest', stream_kept atRest atRest' same₁⟩
  · cases built with
    | ok entity => cases failed'
    | error e =>
        obtain ⟨log', atRest', _⟩ := (both e b₂).2 CounterHandlers Here
          (builtService ignoringRenderer atLimit) (.ok ()) rfl (fun _ => rfl) (fun _ => rfl)
          (onMemory_runs executed)
        exact ⟨e, b₂, log', onMemory_runs executed, atRest', stream_kept atRest atRest' same₂⟩

/-- The published event makes the reload fail: the command fails and the stream has grown. -/
theorem unhandled_event_published : ∃ e b', memoryRuntime.Runs (Backing.new (.countingFrom 1))
      (counterService strictRenderer (.publish [.incremented])) (.error e) b' ∧
    (b'.events counterA).length = 1 ∧ (Backing.new (.countingFrom 1)).events counterA = [] := by
  have published : ((onMemory (counterService strictRenderer (.publish [.incremented]))
      (Backing.new (.countingFrom 1))).map fun run =>
        (run.1.isOk, (run.2.events counterA).length)) = some (false, 1) := by decide +kernel
  obtain ⟨⟨result, b'⟩, run, seen⟩ := Option.map_eq_some_iff.mp published
  obtain ⟨failed, length⟩ := Prod.mk.inj seen
  cases result with
  | ok entity => cases failed
  | error e => exact ⟨e, b', onMemory_runs run, length, rfl⟩

end Counter
end WeeEvents
