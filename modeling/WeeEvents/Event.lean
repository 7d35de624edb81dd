import WeeEvents.Id

/-!
# Events, aggregates and errors

The values that cross the store boundary: recorded events, change sets,
publish options, the aggregate as the full stream of its events, and the
error types of the two crates.
-/
namespace WeeEvents

/-- Closed set of supported payload encodings, with the `cbor` feature on. -/
inductive Encoding where
  | json
  | cbor
  deriving DecidableEq, Repr

def Encoding.asStr : Encoding → String
  | .json => "application/json"
  | .cbor => "application/cbor"

inductive DecodeError where
  | unknownEncoding (encoding : String)
  | encodingMismatch (expected actual : Encoding)
  | json (message : String)
  | cbor (message : String)
  deriving DecidableEq, Repr

inductive EncodeError where
  | json (message : String)
  | cbor (message : String)
  deriving DecidableEq, Repr

def Encoding.fromEncodingStr (s : String) : Except DecodeError Encoding :=
  if s = Encoding.json.asStr then .ok .json
  else if s = Encoding.cbor.asStr then .ok .cbor
  else .error (.unknownEncoding s)

@[simp] theorem Encoding.fromEncodingStr_asStr (e : Encoding) :
    fromEncodingStr e.asStr = .ok e := by
  cases e <;> decide

/-- Encoding-tagged payload, opaque to the stores. -/
structure EventData where
  encoding : Encoding
  data : List UInt8
  deriving DecidableEq, Repr

structure EventMetadata where
  causationId : Option EventId
  correlationId : Option CorrelationId
  deriving DecidableEq, Repr

structure RecordedEvent where
  eventId : EventId
  eventType : EventType
  revision : Revision
  metadata : EventMetadata
  data : EventData
  deriving DecidableEq

/-- An atomic batch of events from a single publish call. -/
structure ChangeSet where
  aggregateId : AggregateId
  revision : Revision
  events : List RecordedEvent
  deriving DecidableEq

structure PublishOptions where
  expectedRevision : Option Revision := none
  correlationId : Option CorrelationId := none
  causationId : Option EventId := none
  deriving DecidableEq

def PublishOptions.metadata (options : PublishOptions) : EventMetadata :=
  ⟨options.causationId, options.correlationId⟩

/-- A pre-serialized event ready for storage. -/
structure RawEvent where
  eventType : EventType
  data : EventData
  deriving DecidableEq, Repr

/-- The event a store records for a raw one. -/
def RawEvent.record (raw : RawEvent) (metadata : EventMetadata) (eventId : EventId)
    (revision : Revision) : RecordedEvent :=
  ⟨eventId, raw.eventType, revision, metadata, raw.data⟩

/-- What a recorded event keeps of the raw one and of the call's options. -/
def RecordedEvent.Carries (event : RecordedEvent) (metadata : EventMetadata) (raw : RawEvent) :
    Prop :=
  event.eventType = raw.eventType ∧ event.data = raw.data ∧ event.metadata = metadata

/-- Revision of the last event, zero for an empty stream. -/
def lastRevision (events : List RecordedEvent) : Revision :=
  match events.getLast? with
  | some e => e.revision
  | none => Revision.zero

structure Aggregate where
  id : AggregateId
  events : List RecordedEvent
  revision : Revision
  deriving DecidableEq

def Aggregate.empty (id : AggregateId) : Aggregate := ⟨id, [], Revision.zero⟩

def Aggregate.fromEvents (id : AggregateId) (events : List RecordedEvent) : Aggregate :=
  ⟨id, events, lastRevision events⟩

theorem Aggregate.fromEvents_nil (id : AggregateId) : fromEvents id [] = empty id := rfl

/-- Projected state wrapper. -/
structure Entity (S : Type) where
  aggregateId : AggregateId
  revision : Revision
  state : S

structure RetryDiagnostics where
  lastAttemptedRevision : Revision
  observedMaxRevision : Revision
  possibleClockSkewMs : Option Nat
  deriving DecidableEq

/-- The libsql errors the store tells apart. -/
inductive LibsqlError where
  | sqliteFailure (code : Int) (message : String)
  | remoteSqliteFailure (extendedCode code : Int) (message : String)
  | connectionFailed (message : String)
  | hrana (message : String)
  | writeDelegation (message : String)
  | other (message : String)
  deriving DecidableEq, Repr

/-- The variants of the SQLite crate's error that are its own. -/
inductive BackendError where
  | libsql (e : LibsqlError)
  | io (message : String)
  | serialization (message : String)
  | configuration (message : String)
  | internal (message : String)
  deriving DecidableEq, Repr

/-- What `Error::Custom` boxes. -/
inductive CustomError where
  | retryExhausted (attempts : Nat) (diagnostics : RetryDiagnostics)
  | monotonic (e : MonotonicError)
  | encode (e : EncodeError)
  | decode (e : DecodeError)
  | backend (e : BackendError)
  deriving DecidableEq

/-- `wee_events::Error`. -/
inductive Error where
  | revisionConflict (expected actual : Revision)
  | encodingMismatch (expected actual : String)
  | unhandledEventType (eventType : String)
  | custom (e : CustomError)
  deriving DecidableEq

/-- The SQLite crate's `Error`: a variant of its own, or the wrapped `WeeEvents` one. -/
inductive SqliteError where
  | backend (e : BackendError)
  | weeEvents (e : Error)
  deriving DecidableEq

namespace SqliteError

abbrev libsql (e : LibsqlError) : SqliteError := .backend (.libsql e)
abbrev configuration (message : String) : SqliteError := .backend (.configuration message)
abbrev internal (message : String) : SqliteError := .backend (.internal message)

/-- `From<Error> for wee_events::Error`: structural failures pass through. -/
def into : SqliteError → Error
  | .backend e => .custom (.backend e)
  | .weeEvents e => e

end SqliteError

@[simp] theorem lastRevision_nil : lastRevision [] = Revision.zero := rfl

@[simp] theorem lastRevision_append_singleton (events : List RecordedEvent) (e : RecordedEvent) :
    lastRevision (events ++ [e]) = e.revision := by
  simp [lastRevision]

theorem lastRevision_append {events more : List RecordedEvent} (nonempty : more ≠ []) :
    lastRevision (events ++ more) = lastRevision more := by
  simp only [lastRevision, List.getLast?_append]
  cases h : more.getLast? with
  | none => exact absurd (List.getLast?_eq_none_iff.mp h) nonempty
  | some e => rfl

end WeeEvents
