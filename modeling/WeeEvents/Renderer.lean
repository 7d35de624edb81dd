import WeeEvents.Event

/-!
# Rendering an aggregate

Event patterns, the renderer's ordered rules, and the fold that turns an
aggregate's stream into an entity. Rules are tried in registration order and an
event no rule matches fails the rendering.
-/
namespace WeeEvents

/-- The positions of `glob_matches`. The remembered text position never passes
the current one. -/
structure GlobState where
  patternIdx : Nat
  textIdx : Nat
  starIdx : Option Nat
  starTextIdx : Nat
  remembered : starTextIdx ≤ textIdx

namespace GlobState

def start : GlobState := ⟨0, 0, none, 0, le_rfl⟩

/-- One turn of the matching loop at a text byte; `none` where it returns false. -/
def turn (pattern : List UInt8) (byte : UInt8) (s : GlobState) : Option GlobState :=
  if pattern[s.patternIdx]? = some byte then
    some ⟨s.patternIdx + 1, s.textIdx + 1, s.starIdx, s.starTextIdx, Nat.le_succ_of_le s.remembered⟩
  else if pattern[s.patternIdx]? = some '*'.toUInt8 then
    some ⟨s.patternIdx + 1, s.textIdx, some s.patternIdx, s.textIdx, le_rfl⟩
  else match s.starIdx with
    | some star => some ⟨star + 1, s.starTextIdx + 1, some star, s.starTextIdx + 1, le_rfl⟩
    | none => none

end GlobState

/-- A turn moves the remembered text position forward, or keeps it and moves on
in the pattern. -/
theorem GlobState.turn_progress {pattern : List UInt8} {byte : UInt8} {s t : GlobState}
    (h : s.turn pattern byte = some t) :
    s.starTextIdx < t.starTextIdx ∨
      s.starTextIdx = t.starTextIdx ∧ t.patternIdx = s.patternIdx + 1 ∧
        s.patternIdx < pattern.length := by
  unfold turn at h
  split at h
  · next literal =>
      cases h
      have inside := (List.getElem?_eq_some_iff.mp literal).1
      exact .inr ⟨rfl, rfl, inside⟩
  · split at h
    · next star =>
        cases h
        have inside := (List.getElem?_eq_some_iff.mp star).1
        rcases s.remembered.lt_or_eq with lt | same
        · exact .inl lt
        · exact .inr ⟨same, rfl, inside⟩
    · split at h
      · cases h
        exact .inl (Nat.lt_succ_self _)
      · cases h

/-- The first loop of `glob_matches`: the pattern position it ends at, `none`
where it returns false. -/
def globLoop (pattern text : List UInt8) (s : GlobState) : Option Nat :=
  if inside : s.textIdx < text.length then
    match turned : s.turn pattern text[s.textIdx] with
    | none => none
    | some t => globLoop pattern text t
  else some s.patternIdx
termination_by (text.length - s.starTextIdx, pattern.length - s.patternIdx)
decreasing_by
  have before := s.remembered
  rcases GlobState.turn_progress turned with further | ⟨same, next, room⟩
  · exact Prod.Lex.left _ _ (by omega)
  · rw [same, next]
    exact Prod.Lex.right _ (by omega)

/-- `glob_matches`: after the text, only stars may be left of the pattern. -/
def globMatches (pattern text : List UInt8) : Bool :=
  match globLoop pattern text .start with
  | none => false
  | some patternIdx => (pattern.drop patternIdx).all (· == '*'.toUInt8)

inductive EventPattern where
  | exact (eventType : EventType)
  | glob (pattern : String)
  deriving DecidableEq, Repr

inductive EventPatternError where
  | emptyGlob
  deriving DecidableEq, Repr

/-- `EventPattern::glob` -/
def EventPattern.newGlob (pattern : String) : Except EventPatternError EventPattern :=
  if pattern.isEmpty then .error .emptyGlob else .ok (.glob pattern)

def EventPattern.matches (pattern : EventPattern) (eventType : EventType) : Bool :=
  match pattern with
  | .exact pattern => pattern == eventType
  | .glob pattern => globMatches pattern.toUTF8.data.toList eventType.text.toUTF8.data.toList

structure RenderEventContext where
  aggregateId : AggregateId
  eventId : EventId
  eventType : EventType
  revision : Revision
  encoding : String
  deriving DecidableEq

def RenderEventContext.new (id : AggregateId) (event : RecordedEvent) : RenderEventContext :=
  ⟨id, event.eventId, event.eventType, event.revision, event.data.encoding.asStr⟩

inductive RenderError (E : Type) where
  | unhandledEventType (context : RenderEventContext)
  | applyFailed (context : RenderEventContext) (source : E)

/-- `From<RenderError<E>> for wee_events::Error`, where `custom` boxes the source. -/
def RenderError.into {E : Type} (custom : E → CustomError) : RenderError E → Error
  | .unhandledEventType context => .unhandledEventType context.eventType.text
  | .applyFailed _ source => .custom (custom source)

/-- A reducer: the next state, or why the event cannot be applied. -/
abbrev ReduceFn (S E : Type) := S → EventType → EventData → Except E S

inductive Action (S E : Type) where
  | reduce (reducer : ReduceFn S E)
  | ignore

structure Renderer (S E : Type) where
  rules : List (EventPattern × Action S E)

namespace Renderer

variable {S E : Type}

def new : Renderer S E := ⟨[]⟩

def register (renderer : Renderer S E) (pattern : EventPattern) (reducer : ReduceFn S E) :
    Renderer S E :=
  ⟨renderer.rules ++ [(pattern, .reduce reducer)]⟩

def registerIgnore (renderer : Renderer S E) (pattern : EventPattern) : Renderer S E :=
  ⟨renderer.rules ++ [(pattern, .ignore)]⟩

/-- The action of the first rule that matches. -/
def action (renderer : Renderer S E) (eventType : EventType) : Option (Action S E) :=
  (renderer.rules.find? fun rule => rule.1.matches eventType).map Prod.snd

def apply (renderer : Renderer S E) (id : AggregateId) (state : S) (event : RecordedEvent) :
    Except (RenderError E) S :=
  match renderer.action event.eventType with
  | some (.reduce reducer) =>
      match reducer state event.eventType event.data with
      | .ok next => .ok next
      | .error source => .error (.applyFailed (.new id event) source)
  | some .ignore => .ok state
  | none => .error (.unhandledEventType (.new id event))

variable [Inhabited S]

/-- The state after a list of events, from the default one. -/
def stateOf (renderer : Renderer S E) (id : AggregateId) (events : List RecordedEvent) :
    Except (RenderError E) S :=
  events.foldlM (renderer.apply id) default

def render (renderer : Renderer S E) (aggregate : Aggregate) :
    Except (RenderError E) (Entity S) :=
  match renderer.stateOf aggregate.id aggregate.events with
  | .ok state => .ok ⟨aggregate.id, aggregate.revision, state⟩
  | .error e => .error e

/-- Rendering keeps the identity and the revision of the aggregate. -/
theorem render_eq_ok {renderer : Renderer S E} {aggregate : Aggregate} {entity : Entity S} :
    renderer.render aggregate = .ok entity ↔
      entity.aggregateId = aggregate.id ∧ entity.revision = aggregate.revision ∧
        renderer.stateOf aggregate.id aggregate.events = .ok entity.state := by
  unfold render
  constructor
  · intro h
    split at h
    · next state rendered =>
        cases h
        exact ⟨rfl, rfl, rendered⟩
    · cases h
  · rintro ⟨id, revision, rendered⟩
    rw [rendered]
    obtain ⟨entityId, entityRevision, state⟩ := entity
    cases id
    cases revision
    rfl

@[simp] theorem stateOf_nil (renderer : Renderer S E) (id : AggregateId) :
    renderer.stateOf id [] = .ok default := rfl

end Renderer
end WeeEvents
