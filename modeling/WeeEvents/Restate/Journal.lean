import WeeEvents.Restate.Binding
import WeeEvents.FailedCommand

/-!
# Crashes and the journal

One invocation under any schedule of deliveries and crashes. The store and the
journal survive a crash, the execution of the block does not: a block whose
result is journaled is never executed again, any other is executed from its start.
-/
namespace WeeEvents.Restate
open Foundation

variable {T : Type}

/-- Where an invocation is: not delivered, inside its block, or past it. -/
inductive InvocationPhase (T : Type) where
  | waiting
  | executing (rest : ClientProgram (Except HandlerError T))
  | returned (r : Except HandlerError T)

/-- What survives a crash, and where the invocation is. -/
structure InvocationState (T : Type) where
  log : EventLog
  journal : Option (Except HandlerError T) := none
  phase : InvocationPhase T := .waiting

inductive InvocationEvent where
  | delivered
  | replayed
  | performed (call : EventStoreCall) (r : call.Res)
  | journaled
  | crashed

/-- One step of an invocation, with no other writer. -/
inductive InvocationStep (invocation : Invocation EventStoreCall EventStoreCall.Res T) :
    InvocationState T → InvocationEvent → InvocationState T → Prop
  | deliver {log : EventLog} (ulid : String) :
      InvocationStep invocation ⟨log, none, .waiting⟩ .delivered
        ⟨log, none, .executing (invocation.block ulid)⟩
  | replay {log : EventLog} {r : Except HandlerError T} :
      InvocationStep invocation ⟨log, some r, .waiting⟩ .replayed ⟨log, some r, .returned r⟩
  | perform {log log' : EventLog} {journal : Option (Except HandlerError T)} {call : EventStoreCall}
      {next : call.Res → ClientProgram (Except HandlerError T)} {r : call.Res} :
      StoreStep log call r log' →
      InvocationStep invocation ⟨log, journal, .executing (.call call next)⟩ (.performed call r)
        ⟨log', journal, .executing (next r)⟩
  | record {log : EventLog} {journal : Option (Except HandlerError T)} {r : Except HandlerError T} :
      InvocationStep invocation ⟨log, journal, .executing (.ret r)⟩ .journaled
        ⟨log, some r, .returned r⟩
  | crash {s : InvocationState T} :
      InvocationStep invocation s .crashed { s with phase := .waiting }

/-- The states a schedule of deliveries and crashes leads to, with what happened on the way. -/
inductive InvocationRun (invocation : Invocation EventStoreCall EventStoreCall.Res T)
    (log₀ : EventLog) : List InvocationEvent → InvocationState T → Prop
  | start : InvocationRun invocation log₀ [] { log := log₀ }
  | step {trace : List InvocationEvent} {s s' : InvocationState T} {event : InvocationEvent} :
      InvocationRun invocation log₀ trace s → InvocationStep invocation s event s' →
      InvocationRun invocation log₀ (trace ++ [event]) s'

/-- The change set a publish appended; a publish of no events appends none. -/
def InvocationEvent.appended? : InvocationEvent → Option ChangeSet
  | .performed (.publish _ _ _) (.ok changeset) =>
      if changeset.events = [] then none else some changeset
  | _ => none

/-- The change sets appended in a schedule. -/
def appends (trace : List InvocationEvent) : List ChangeSet :=
  trace.filterMap InvocationEvent.appended?

/-- Whether the execution under way has appended and not been journaled, and how many such
executions crashes have discarded. -/
def account (before : Bool × Nat) : InvocationEvent → Bool × Nat
  | .delivered => (false, before.2)
  | .journaled => (false, before.2)
  | .replayed => before
  | .crashed => (false, if before.1 then before.2 + 1 else before.2)
  | .performed call r =>
      (before.1 || (InvocationEvent.performed call r).appended?.isSome, before.2)

def unrecorded (trace : List InvocationEvent) : Bool := (trace.foldl account (false, 0)).1

/-- The crashes that fell between an append and the journaling of its execution. -/
def lostResults (trace : List InvocationEvent) : Nat := (trace.foldl account (false, 0)).2

section Trace

variable {trace : List InvocationEvent} {event : InvocationEvent}

theorem appends_cons : appends (event :: trace) = event.appended?.toList ++ appends trace := by
  rw [appends, List.filterMap_cons]
  cases event.appended? <;> rfl

theorem appends_append (more : List InvocationEvent) :
    appends (trace ++ more) = appends trace ++ appends more := List.filterMap_append

theorem appends_concat : appends (trace ++ [event]) = appends trace ++ event.appended?.toList := by
  rw [appends, List.filterMap_append, List.filterMap_cons]
  cases event.appended? <;> rfl

theorem account_concat : (trace ++ [event]).foldl account (false, 0) =
    account (unrecorded trace, lostResults trace) event := by
  rw [List.foldl_append]
  rfl

theorem unrecorded_concat : unrecorded (trace ++ [event]) =
    (account (unrecorded trace, lostResults trace) event).1 := congrArg Prod.fst account_concat

theorem lostResults_concat : lostResults (trace ++ [event]) =
    (account (unrecorded trace, lostResults trace) event).2 := congrArg Prod.snd account_concat

end Trace

/-- A call extends the log by what it appended. -/
theorem log_of_storeStep {log log' : EventLog} {call : EventStoreCall} {r : call.Res}
    (step : StoreStep log call r log') :
    log' = log ++ (InvocationEvent.performed call r).appended?.toList.flatMap
      fun changeset => entries changeset.aggregateId changeset.events := by
  cases step with
  | loaded => exact (List.append_nil _).symm
  | loadFailed => exact (List.append_nil _).symm
  | publishFailed => exact (List.append_nil _).symm
  | nothing => exact (List.append_nil _).symm
  | @appended id options raws events nonempty carries _ _ =>
      have recorded : events ≠ [] := by
        rintro rfl
        rw [List.forall₂_nil_left_iff] at carries
        exact nonempty carries
      simp [InvocationEvent.appended?, recorded]

/-! ### One execution publishes once -/

/-- A block may publish as long as it has appended nothing. -/
def onceDiscipline : Discipline EventStoreCall EventStoreCall.Res Bool where
  may appended call := match call with
    | .load _ => True
    | .publish _ _ _ => appended = false
  learn appended call r := appended || (InvocationEvent.performed call r).appended?.isSome

/-- A program that appends at most once, from a state in which it has appended or not. -/
def AppendsOnce {α : Type} (appended : Bool) (p : ClientProgram α) : Prop :=
  onceDiscipline.Obeys (fun _ _ => True) p appended

/-- A program that appends nothing. -/
def AppendsNothing {α : Type} (appended : Bool) (p : ClientProgram α) : Prop :=
  onceDiscipline.Obeys (fun after _ => after = appended) p appended

theorem AppendsNothing.once {α : Type} {appended : Bool} {p : ClientProgram α}
    (h : AppendsNothing appended p) : AppendsOnce appended p := h.mono fun _ _ _ => trivial

theorem AppendsNothing.mapErr {α ε ε' : Type} {appended : Bool} {p : ClientProgram (Except ε α)}
    {f : ε → ε'} (h : AppendsNothing appended p) : AppendsNothing appended (mapErr p f) :=
  h.bind fun _ _ same => same

theorem AppendsOnce.mapErr {α ε ε' : Type} {appended : Bool} {p : ClientProgram (Except ε α)}
    {f : ε → ε'} (h : AppendsOnce appended p) : AppendsOnce appended (mapErr p f) :=
  h.bind fun _ _ _ => trivial

section Blocks

variable {S R EL C E EH : Type} {ofStore : Error → EL} {ofRender : RenderError R → EL}
  {encoding : Encoding} {decide : Entity S → C → Decision E EH} {ofPublish : ServiceError Error → EH}

theorem loadAndRender_appendsNothing [Inhabited S] {renderer : Renderer S R} (id : AggregateId)
    (appended : Bool) : AppendsNothing appended (loadAndRender renderer ofStore ofRender id) := by
  have loads : AppendsNothing appended (eventStoreCall (.load id)) := by
    refine ⟨trivial, fun r => ?_⟩
    exact Bool.or_false appended
  exact loads.mapErr.andThen (fun _ _ same => same) fun _ _ same => same

variable [DomainEvent E]

theorem decideAndPublish_appendsOnce (entity : Entity S) (command : C) :
    AppendsOnce false (decideAndPublish encoding decide ofPublish entity command) := by
  unfold decideAndPublish
  split
  · trivial
  · trivial
  · next events decided =>
      have publishing : AppendsOnce false (publishEvents encoding entity events) := by
        unfold publishEvents
        split
        · trivial
        · have publishes : ∀ call, AppendsOnce false (eventStoreCall call) := by
            intro call
            refine ⟨?_, fun _ => trivial⟩
            cases call <;> trivial
          exact (publishes _).mapErr
      exact publishing.bind fun _ _ _ => trivial

/-- Load, handle, reload: one append at most. -/
theorem handleCommand_appendsOnce [Inhabited S] [IntoHandlerError EL] [IntoHandlerError EH]
    {renderer : Renderer S R} (id : AggregateId) (command : C) :
    AppendsOnce false (handleCommand (loadAndRender renderer ofStore ofRender)
      (decideAndPublish encoding decide ofPublish) id command) := by
  have loading : AppendsNothing false (mapErr (loadAndRender renderer ofStore ofRender id)
      IntoHandlerError.toHandlerError) := (loadAndRender_appendsNothing id false).mapErr
  refine loading.andThen (fun appended entity same => ?_) fun _ _ _ => trivial
  subst same
  have handling : AppendsOnce false (mapErr (decideAndPublish encoding decide ofPublish entity
      command) IntoHandlerError.toHandlerError) := (decideAndPublish_appendsOnce entity command).mapErr
  refine handling.andThen (fun appended outcome _ => ?_) fun _ _ _ => trivial
  cases outcome with
  | entity entity => trivial
  | reload => exact (loadAndRender_appendsNothing id appended).mapErr.once

end Blocks

/-! ### Every schedule -/

/-- Where an invocation stands after a schedule. -/
def Stands (trace : List InvocationEvent) (s : InvocationState T) : Prop :=
  match s.phase with
  | .waiting => unrecorded trace = false
  | .executing rest => s.journal = none ∧ AppendsOnce (unrecorded trace) rest
  | .returned _ => s.journal.isSome ∧ unrecorded trace = false

/-- Every append is in the log, and all but one were discarded by a crash: the one of the
execution under way, or of the journaled one. -/
structure Accounted (log₀ : EventLog) (trace : List InvocationEvent) (s : InvocationState T) :
    Prop where
  log : s.log = log₀ ++ (appends trace).flatMap fun changeset =>
    entries changeset.aggregateId changeset.events
  bound : (appends trace).length ≤
    lostResults trace + if unrecorded trace || s.journal.isSome then 1 else 0
  stands : Stands trace s

section Schedule

variable {invocation : Invocation EventStoreCall EventStoreCall.Res T} {log₀ : EventLog}
  {trace : List InvocationEvent} {s s' : InvocationState T} {event : InvocationEvent}

theorem Accounted.step (once : ∀ ulid, AppendsOnce false (invocation.block ulid))
    (h : Accounted log₀ trace s) (step : InvocationStep invocation s event s') :
    Accounted log₀ (trace ++ [event]) s' := by
  obtain ⟨log, bound, stands⟩ := h
  have same : event.appended? = none → appends (trace ++ [event]) = appends trace := by
    intro nothing
    rw [appends_concat, nothing]
    exact List.append_nil _
  cases step with
  | deliver ulid =>
      have idle : unrecorded trace = false := stands
      refine ⟨by rw [same rfl]; exact log, ?_, ?_⟩
      · rw [same rfl, lostResults_concat, unrecorded_concat]
        rw [idle] at bound
        exact bound
      · refine ⟨rfl, ?_⟩
        rw [unrecorded_concat]
        exact once ulid
  | replay =>
      refine ⟨by rw [same rfl]; exact log, ?_, ?_⟩
      · rw [same rfl, lostResults_concat, unrecorded_concat]
        exact bound
      · refine ⟨rfl, ?_⟩
        rw [unrecorded_concat]
        exact stands
  | @perform _ log' journal call next r stepped =>
      obtain ⟨none, may, rest⟩ := stands
      dsimp only at none
      subst none
      refine ⟨?_, ?_, ?_⟩
      · dsimp only at log ⊢
        rw [log_of_storeStep stepped, log, appends_concat, List.flatMap_append, List.append_assoc]
      · rw [appends_concat, lostResults_concat, unrecorded_concat, List.length_append]
        cases appended : (InvocationEvent.performed call r).appended? with
        | none => simpa [account, appended] using bound
        | some changeset =>
            -- only a publish appends, and it may only be called before any append
            have before : unrecorded trace = false := by
              cases call with
              | load id => cases appended
              | publish id options raws => exact may
            rw [before] at bound
            simpa [account, appended, before] using bound
      · refine ⟨rfl, ?_⟩
        rw [unrecorded_concat]
        exact rest r
  | record =>
      refine ⟨by rw [same rfl]; exact log, ?_, ?_⟩
      · rw [same rfl, lostResults_concat, unrecorded_concat]
        simp only [account, Option.isSome_some, Bool.or_true, if_true]
        split at bound <;> omega
      · refine ⟨rfl, ?_⟩
        rw [unrecorded_concat]
        rfl
  | crash =>
      refine ⟨by rw [same rfl]; exact log, ?_, ?_⟩
      · rw [same rfl, lostResults_concat, unrecorded_concat]
        cases pending : unrecorded trace with
        | false => simpa [account, pending] using bound
        | true =>
            simp only [account, pending, if_true, Bool.true_or] at bound ⊢
            omega
      · change unrecorded (trace ++ [.crashed]) = false
        rw [unrecorded_concat]
        rfl

theorem InvocationRun.accounted (once : ∀ ulid, AppendsOnce false (invocation.block ulid))
    (run : InvocationRun invocation log₀ trace s) : Accounted log₀ trace s := by
  induction run with
  | start => exact ⟨(List.append_nil log₀).symm, le_rfl, rfl⟩
  | step _ stepped ih => exact ih.step once stepped

end Schedule

/-- However an invocation is crashed and redelivered, with no other writer: what it appended is at
most one change set and one more for each crash between an append and the journal. -/
theorem durable_command_appends_once {S R EL C E EH : Type} [Inhabited S] [DomainEvent E]
    [Serialize S] [Serialize C] [IntoHandlerError EL] [IntoHandlerError EH]
    (renderer : Renderer S R) (ofStore : Error → EL) (ofRender : RenderError R → EL)
    (encoding : Encoding) (decide : Entity S → C → Decision E EH)
    (ofPublish : ServiceError Error → EH) (key : String) (command : C) (log₀ : EventLog)
    (trace : List InvocationEvent) :
    (∀ invocation s, commandMethod (loadAndRender renderer ofStore ofRender)
        (decideAndPublish encoding decide ofPublish) key command = .ok invocation →
      InvocationRun invocation log₀ trace s →
        s.log = log₀ ++ (appends trace).flatMap (fun changeset =>
          entries changeset.aggregateId changeset.events) ∧
        (appends trace).length ≤ 1 + lostResults trace) ∧
    ∀ effects commandName invocation s, commandMethodWithEffects effects commandName
        (loadAndRender renderer ofStore ofRender) (decideAndPublish encoding decide ofPublish) key
        command = .ok invocation →
      InvocationRun invocation log₀ trace s →
        s.log = log₀ ++ (appends trace).flatMap (fun changeset =>
          entries changeset.aggregateId changeset.events) ∧
        (appends trace).length ≤ 1 + lostResults trace := by
  have counted : ∀ {T : Type} {invocation : Invocation EventStoreCall EventStoreCall.Res T} {s},
      (∀ ulid, AppendsOnce false (invocation.block ulid)) → InvocationRun invocation log₀ trace s →
        s.log = log₀ ++ (appends trace).flatMap (fun changeset =>
          entries changeset.aggregateId changeset.events) ∧
        (appends trace).length ≤ 1 + lostResults trace := by
    intro T invocation s once run
    have accounted := run.accounted once
    refine ⟨accounted.log, accounted.bound.trans ?_⟩
    split <;> omega
  constructor
  · intro invocation s method run
    refine counted (fun ulid => ?_) run
    unfold commandMethod at method
    cases parsed : parseKey key with
    | error e => rw [parsed] at method; cases method
    | ok id =>
        rw [parsed] at method
        cases method
        exact (handleCommand_appendsOnce id command).andThen (fun _ _ _ => trivial)
          fun _ _ _ => trivial
  · intro effects commandName invocation s method run
    refine counted (fun ulid => ?_) run
    unfold commandMethodWithEffects at method
    cases parsed : parseKey key with
    | error e => rw [parsed] at method; cases method
    | ok id =>
        rw [parsed] at method
        cases method
        exact (handleCommand_appendsOnce id command).andThen (fun _ _ _ => trivial)
          fun _ _ _ => trivial

/-- The block of an execution under way can be carried to its end. -/
theorem InvocationRun.executes {invocation : Invocation EventStoreCall EventStoreCall.Res T}
    {log₀ log log' : EventLog} {trace : List InvocationEvent}
    {p : ClientProgram (Except HandlerError T)} {r : Except HandlerError T}
    (execution : Program.Runs StoreStep log p r log')
    (run : InvocationRun invocation log₀ trace ⟨log, none, .executing p⟩) :
    ∃ more, InvocationRun invocation log₀ (trace ++ more) ⟨log', none, .executing (.ret r)⟩ ∧
      log' = log ++ (appends more).flatMap fun changeset =>
        entries changeset.aggregateId changeset.events := by
  induction execution generalizing trace with
  | ret => exact ⟨[], by rw [List.append_nil]; exact run, (List.append_nil _).symm⟩
  | @call _ _ _ call _ answer _ stepped _ ih =>
      obtain ⟨more, later, grown⟩ := ih (run.step (.perform stepped))
      refine ⟨.performed call answer :: more, by simpa using later, ?_⟩
      have first := log_of_storeStep stepped
      rw [grown, first, appends_cons, List.flatMap_append, List.append_assoc]

section Counter

open Memory

local instance : Display CustomError := ⟨fun _ => "backend failure"⟩

def publishFailure : ServiceError Error → Error
  | .store e => e
  | .codec (.encode e) => .custom (.encode e)
  | .codec (.decode e) => .custom (.decode e)
  | .rejection r => .unhandledEventType r.code

/-- A handler that publishes one event, whatever it is given. -/
def increment : Handler EventStoreCall EventStoreCall.Res Nat Unit Error :=
  decideAndPublish .json (fun _ _ => .publish [CounterEvent.incremented]) publishFailure

def incrementInvocation : Invocation EventStoreCall EventStoreCall.Res EntityResponse where
  block _ := (handleCommand (counterLoader ignoringRenderer) increment counterA ()).andThen fun entity =>
    .ret (toEntityResponse entity)
  finish response := (response, [])

theorem increment_method :
    commandMethod (counterLoader ignoringRenderer) increment counterA.toText () = .ok incrementInvocation := by
  have parsed : parseKey counterA.toText = .ok counterA := by
    rw [parseKey, AggregateId.fromStr_toText (by decide)]
    rfl
  rw [commandMethod, parsed]
  rfl

/-- One execution of the block on the in-memory store. -/
def incrementOn (b : Backing) : Option (Except HandlerError EntityResponse × Backing) :=
  onMemory (incrementInvocation.block "") b

/-- Two executions, one after the other, and the stream after each. -/
theorem increment_twice : ∃ r₁ b₁ r₂ b₂,
    incrementOn (Backing.new (.countingFrom 1)) = some (r₁, b₁) ∧ incrementOn b₁ = some (r₂, b₂) ∧
      (b₁.events counterA).length = 1 ∧ (b₂.events counterA).length = 2 := by
  have once : ((incrementOn (Backing.new (.countingFrom 1))).bind fun first =>
      (incrementOn first.2).map fun second =>
        ((first.2.events counterA).length, (second.2.events counterA).length)) = some (1, 2) := by
    decide +kernel
  obtain ⟨⟨r₁, b₁⟩, first, rest⟩ := Option.bind_eq_some_iff.mp once
  obtain ⟨⟨r₂, b₂⟩, second, lengths⟩ := Option.map_eq_some_iff.mp rest
  obtain ⟨one, two⟩ := Prod.mk.inj lengths
  exact ⟨r₁, b₁, r₂, b₂, first, second, one, two⟩

/-- An execution as steps of the invocation, on the log that the store stands for. -/
theorem increment_executes {b b' : Backing} {log : EventLog} {r : Except HandlerError EntityResponse}
    (ran : incrementOn b = some (r, b')) (atRest : AtRest b log) {log₀ : EventLog}
    {trace : List InvocationEvent}
    (waiting : InvocationRun incrementInvocation log₀ trace ⟨log, none, .waiting⟩) :
    ∃ more log', InvocationRun incrementInvocation log₀ (trace ++ [.delivered] ++ more)
        ⟨log', none, .executing (.ret r)⟩ ∧ AtRest b' log' ∧
      log' = log ++ (appends more).flatMap fun changeset =>
        entries changeset.aggregateId changeset.events := by
  obtain ⟨log', atRest', onLog⟩ := (onMemory_runs ran).onLog atRest
  obtain ⟨more, executed, grown⟩ := (waiting.step (.deliver "")).executes onLog
  exact ⟨more, log', executed, atRest', grown⟩

theorem appends_of_grown {b b' : Backing} {log log' : EventLog} {more : List InvocationEvent}
    (before : AtRest b log) (after : AtRest b' log')
    (longer : (b.events counterA).length < (b'.events counterA).length)
    (grown : log' = log ++ (appends more).flatMap fun changeset =>
      entries changeset.aggregateId changeset.events) : 0 < (appends more).length := by
  rw [List.length_pos_iff]
  intro empty
  rw [empty, List.flatMap_nil, List.append_nil] at grown
  rw [before.events, after.events, grown] at longer
  exact lt_irrefl _ longer

/-- The first execution is lost to a crash after its append, the second runs to its end. -/
theorem increment_executed_again : ∃ trace log r,
    InvocationRun incrementInvocation [] trace ⟨log, none, .executing (.ret r)⟩ ∧
      1 < (appends trace).length := by
  obtain ⟨r₁, b₁, r₂, b₂, first, second, one, two⟩ := increment_twice
  obtain ⟨more, log₁, executed, atRest, grown⟩ :=
    increment_executes first (atRest_new _) (.start : InvocationRun incrementInvocation [] [] _)
  obtain ⟨again, log₂, executed', atRest', grown'⟩ :=
    increment_executes second atRest (executed.step .crash)
  have once : 0 < (appends more).length :=
    appends_of_grown (atRest_new (.countingFrom 1)) atRest (by rw [one]; exact Nat.zero_lt_one) grown
  have twice : 0 < (appends again).length := appends_of_grown atRest atRest' (by omega) grown'
  refine ⟨_, log₂, r₂, executed', ?_⟩
  simp only [appends_append, List.length_append]
  omega

/-- An execution that ended is journaled; after a crash its result is replayed. -/
def replayedAfterCrash (trace : List InvocationEvent) : List InvocationEvent :=
  trace ++ [.journaled] ++ [.crashed] ++ [.replayed]

/-- A crash before the journal costs a second append, one after it none: the redelivered
invocation is answered from the journal. -/
theorem increment_appends_once : ∃ trace log r,
    InvocationRun incrementInvocation [] (replayedAfterCrash trace) ⟨log, some r, .returned r⟩ ∧
      1 < (appends (replayedAfterCrash trace)).length ∧
      (appends (replayedAfterCrash trace)).length ≤ 1 + lostResults (replayedAfterCrash trace) := by
  obtain ⟨trace, log, r, executed, twice⟩ := increment_executed_again
  have replayed : InvocationRun incrementInvocation [] (replayedAfterCrash trace)
      ⟨log, some r, .returned r⟩ := ((executed.step .record).step .crash).step .replay
  refine ⟨trace, log, r, replayed, ?_, ?_⟩
  · simp only [replayedAfterCrash, appends_append, List.length_append]
    omega
  · exact ((durable_command_appends_once ignoringRenderer id (RenderError.into .decode) .json
      (fun _ _ => .publish [CounterEvent.incremented]) publishFailure counterA.toText () [] _).1
        incrementInvocation _ increment_method replayed).2

/-- A crash after the append and before the journal: the redelivered block appends again. -/
theorem crash_before_journal_appends_twice : ∃ trace s,
    InvocationRun incrementInvocation [] trace s ∧ 1 < (appends trace).length := by
  obtain ⟨trace, log, r, executed, twice⟩ := increment_executed_again
  exact ⟨trace, _, executed, twice⟩

end Counter
end WeeEvents.Restate
