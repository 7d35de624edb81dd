import WeeEvents.Event
import WeeEvents.Foundation.Sequence

/-!
# The `events` table

Rows in insertion order under the constraints of the schema, the queries the
store runs on them, and the three guarded `INSERT` statements. A table value
carries its `CHECK`, `PRIMARY KEY` and unique-index constraints, so a table that
violates them cannot be built.
-/
namespace WeeEvents.Sqlite
open Foundation

structure Row where
  eventId : String
  aggregateType : String
  aggregateKey : String
  eventType : String
  revision : String
  causationId : Option String
  correlationId : Option String
  encoding : String
  data : List UInt8
  deriving DecidableEq, Repr

/-- By type, then by key: the order of identifiers in sorted output. -/
def sortKey (id : AggregateId) : String ×ₗ String :=
  toLex (id.aggregateType.text, id.aggregateKey)

theorem sortKey_injective : Function.Injective sortKey := by
  rintro ⟨⟨type⟩, key⟩ ⟨⟨type'⟩, key'⟩ same
  obtain ⟨rfl, rfl⟩ := Prod.ext_iff.mp (toLex.injective same)
  rfl

namespace Row

/-- `aggregate_type = ?2 AND aggregate_key = ?3` -/
def belongsTo (row : Row) (id : AggregateId) : Bool :=
  row.aggregateType == id.aggregateType.text && row.aggregateKey == id.aggregateKey

def aggregateId (row : Row) : AggregateId := ⟨⟨row.aggregateType⟩, row.aggregateKey⟩

/-- The columns of `idx_events_aggregate`. -/
def indexKey (row : Row) : String × String × String :=
  (row.aggregateType, row.aggregateKey, row.revision)

/-- The row a recorded event is stored as. -/
def store (id : AggregateId) (event : RecordedEvent) : Row where
  eventId := event.eventId.text
  aggregateType := id.aggregateType.text
  aggregateKey := id.aggregateKey
  eventType := event.eventType.text
  revision := event.revision.text
  causationId := event.metadata.causationId.map EventId.text
  correlationId := event.metadata.correlationId.map CorrelationId.text
  encoding := event.data.encoding.asStr
  data := event.data.data

theorem belongsTo_iff {row : Row} {id : AggregateId} :
    row.belongsTo id = true ↔ row.aggregateId = id := by
  obtain ⟨⟨type⟩, key⟩ := id
  simp [belongsTo, aggregateId]

@[simp] theorem aggregateId_store (id : AggregateId) (event : RecordedEvent) :
    (store id event).aggregateId = id := rfl

@[simp] theorem revision_store (id : AggregateId) (event : RecordedEvent) :
    (store id event).revision = event.revision.text := rfl

@[simp] theorem eventId_store (id : AggregateId) (event : RecordedEvent) :
    (store id event).eventId = event.eventId.text := rfl

end Row

def decodeErrorMessage : DecodeError → String
  | .unknownEncoding encoding => "unknown encoding: " ++ encoding
  | .encodingMismatch _ _ => "encoding mismatch"
  | .json message => "json decode: " ++ message
  | .cbor message => "cbor decode: " ++ message

def revisionErrorMessage : Revision.ParseError → String
  | .wrongLength bytes => "revision must be 26 chars (ULID); got " ++ toString bytes ++ " chars"
  | .invalidUlid .invalidLength => "revision is not a valid ULID: invalid length"
  | .invalidUlid .invalidChar => "revision is not a valid ULID: invalid character"

/-- One iteration of the row loop of `load_from_connection`. -/
def Row.load [UlidParser] (row : Row) : Except SqliteError RecordedEvent :=
  match Encoding.fromEncodingStr row.encoding with
  | .error e => .error (.internal ("event row has unknown encoding: " ++ decodeErrorMessage e))
  | .ok encoding =>
      match Revision.fromStr row.revision with
      | .error e => .error (.internal ("event row has invalid revision: " ++ revisionErrorMessage e))
      | .ok revision => .ok {
          eventId := ⟨row.eventId⟩
          eventType := ⟨row.eventType⟩
          revision
          metadata := ⟨row.causationId.map EventId.mk, row.correlationId.map CorrelationId.mk⟩
          data := ⟨encoding, row.data⟩ }

def loadRows [UlidParser] : List Row → Except SqliteError (List RecordedEvent)
  | [] => .ok []
  | row :: rows =>
      match row.load with
      | .error e => .error e
      | .ok event =>
          match loadRows rows with
          | .error e => .error e
          | .ok events => .ok (event :: events)

structure EventsTable where
  rows : List Row
  eventIdLength : ∀ row ∈ rows, row.eventId.length = 26
  revisionLength : ∀ row ∈ rows, row.revision.length = 26
  primaryKey : (rows.map Row.eventId).Nodup
  aggregateIndex : (rows.map Row.indexKey).Nodup

namespace EventsTable

def empty : EventsTable := ⟨[], by simp, by simp, by simp, by simp⟩

@[ext] theorem ext {t u : EventsTable} (same : t.rows = u.rows) : t = u := by
  cases t; cases u; cases same; rfl

def Admits (t : EventsTable) (row : Row) : Prop :=
  row.eventId.length = 26 ∧ row.revision.length = 26 ∧
    row.eventId ∉ t.rows.map Row.eventId ∧ row.indexKey ∉ t.rows.map Row.indexKey

instance (t : EventsTable) (row : Row) : Decidable (t.Admits row) :=
  inferInstanceAs (Decidable (_ ∧ _ ∧ _ ∧ _))

def add (t : EventsTable) (row : Row) (h : t.Admits row) : EventsTable where
  rows := t.rows ++ [row]
  eventIdLength r member := by
    rcases List.mem_append.mp member with old | new
    · exact t.eventIdLength r old
    · rw [List.mem_singleton.mp new]; exact h.1
  revisionLength r member := by
    rcases List.mem_append.mp member with old | new
    · exact t.revisionLength r old
    · rw [List.mem_singleton.mp new]; exact h.2.1
  primaryKey := by
    rw [List.map_append]
    exact t.primaryKey.append (by simp) (by simpa using h.2.2.1)
  aggregateIndex := by
    rw [List.map_append]
    exact t.aggregateIndex.append (by simp) (by simpa using h.2.2.2)

/-- `SQLITE_CONSTRAINT` -/
def constraintFailed : LibsqlError := .sqliteFailure 19 "constraint failed"

def insert (t : EventsTable) (row : Row) : Except LibsqlError EventsTable :=
  if h : t.Admits row then .ok (t.add row h) else .error constraintFailed

def rowsOf (t : EventsTable) (id : AggregateId) : List Row := t.rows.filter (·.belongsTo id)

/-- `SELECT MAX(revision) FROM events WHERE aggregate_type = ? AND aggregate_key = ?` -/
def maxRevision (t : EventsTable) (id : AggregateId) : Option String :=
  ((t.rowsOf id).map Row.revision).max?

/-- `SELECT .. WHERE aggregate_type = ?1 AND aggregate_key = ?2 ORDER BY revision` -/
def selectOrdered (t : EventsTable) (id : AggregateId) : List Row :=
  (t.rowsOf id).insertionSort fun a b => a.revision ≤ b.revision

/-- `SELECT DISTINCT aggregate_type, aggregate_key FROM events` -/
def selectAggregates (t : EventsTable) : List AggregateId := (t.rows.map Row.aggregateId).dedup

/-- `SELECT DISTINCT aggregate_key FROM events WHERE aggregate_type = ?1` -/
def selectKeys (t : EventsTable) (type : AggregateType) : List String :=
  ((t.rows.filter (·.aggregateType == type.text)).map Row.aggregateKey).dedup

@[simp] theorem rows_empty : empty.rows = [] := rfl

theorem insert_ok {t t' : EventsTable} {row : Row} (h : t.insert row = .ok t') :
    t.Admits row ∧ t'.rows = t.rows ++ [row] := by
  unfold insert at h
  split at h
  · next admits =>
      cases h
      exact ⟨admits, rfl⟩
  · cases h

theorem insert_of_admits {t : EventsTable} {row : Row} (h : t.Admits row) :
    t.insert row = .ok (t.add row h) := dif_pos h

end EventsTable

/-- `EventStore::load_from_connection` -/
def loadFromConnection [UlidParser] (t : EventsTable) (id : AggregateId) :
    Except SqliteError Aggregate :=
  match loadRows (t.selectOrdered id) with
  | .error e => .error e
  | .ok events => .ok (Aggregate.fromEvents id events)

/-! The guards of the three statements. The comparison with a `NULL` maximum is
not true, which is what `Option` equality says. -/

/-- `COALESCE((SELECT MAX(revision) ..), '00000000000000000000000000')` -/
def coalesceMax (t : EventsTable) (id : AggregateId) : String :=
  (t.maxRevision id).getD zeroRevisionText

def sqlInitial (t : EventsTable) (id : AggregateId) : Bool := !t.rows.any (·.belongsTo id)

def sqlAdvance (t : EventsTable) (id : AggregateId) (revision : String) : Bool :=
  decide (coalesceMax t id < revision)

def sqlExact (t : EventsTable) (id : AggregateId) (revision : String) (expected : Revision) : Bool :=
  sqlAdvance t id revision && t.maxRevision id == some expected.text

theorem sqlInitial_iff {t : EventsTable} {id : AggregateId} :
    sqlInitial t id = true ↔ t.rowsOf id = [] := by
  simp [sqlInitial, EventsTable.rowsOf, List.filter_eq_nil_iff]

theorem sqlAdvance_iff {t : EventsTable} {id : AggregateId} {revision : String} :
    sqlAdvance t id revision = true ↔ coalesceMax t id < revision := decide_eq_true_iff

theorem sqlExact_iff {t : EventsTable} {id : AggregateId} {revision : String} {expected : Revision} :
    sqlExact t id revision expected = true ↔
      coalesceMax t id < revision ∧ t.maxRevision id = some expected.text := by
  rw [sqlExact, Bool.and_eq_true, sqlAdvance_iff, beq_iff_eq]

/-! Rows written by the store read back as the events they were written for. -/

@[simp] theorem Row.load_store [UlidParser] (id : AggregateId) (event : RecordedEvent) :
    (Row.store id event).load = .ok event := by
  obtain ⟨eventId, eventType, revision, ⟨causation, correlation⟩, ⟨encoding, data⟩⟩ := event
  simp only [Row.load, Row.store, Encoding.fromEncodingStr_asStr, Revision.fromStr_text,
    Option.map_map]
  cases causation <;> cases correlation <;> rfl

theorem loadRows_store [UlidParser] (id : AggregateId) (events : List RecordedEvent) :
    loadRows (events.map (Row.store id)) = .ok events := by
  induction events with
  | nil => rfl
  | cons event events ih => simp only [List.map_cons, loadRows, Row.load_store, ih]

theorem loadRows_append [UlidParser] {rows : List Row} {row : Row} {events : List RecordedEvent}
    (h : loadRows (rows ++ [row]) = .ok events) :
    ∃ front event, events = front ++ [event] ∧ row.load = .ok event := by
  induction rows generalizing events with
  | nil =>
      simp only [List.nil_append, loadRows] at h
      split at h
      · cases h
      · next event loaded =>
          cases h
          exact ⟨[], event, rfl, loaded⟩
  | cons first rows ih =>
      simp only [List.cons_append, loadRows] at h
      split at h
      · cases h
      · next event loaded =>
          split at h
          · cases h
          · next later loadedRest =>
              cases h
              obtain ⟨front, last, rfl, lastLoaded⟩ := ih loadedRest
              exact ⟨event :: front, last, rfl, lastLoaded⟩

theorem Row.load_revision [UlidParser] {row : Row} {event : RecordedEvent}
    (h : row.load = .ok event) : Revision.fromStr row.revision = .ok event.revision := by
  unfold Row.load at h
  split at h
  · cases h
  · split at h
    · cases h
    · next revision parsed =>
        cases h
        exact parsed

/-- The last row in revision order is the one with the maximal revision. -/
theorem EventsTable.maxRevision_eq_last (t : EventsTable) (id : AggregateId) :
    t.maxRevision id = (t.selectOrdered id).getLast?.map Row.revision := by
  have sorted : (t.selectOrdered id).Pairwise fun a b => a.revision ≤ b.revision :=
    List.pairwise_insertionSort (fun a b : Row => a.revision ≤ b.revision) (t.rowsOf id)
  have perm : (t.selectOrdered id).Perm (t.rowsOf id) := List.perm_insertionSort _ _
  rw [maxRevision]
  cases last : (t.selectOrdered id).getLast? with
  | none =>
      rw [List.getLast?_eq_none_iff] at last
      rw [last] at perm
      rw [perm.nil_eq.symm]
      rfl
  | some row =>
      obtain ⟨front, split⟩ := List.getLast?_eq_some_iff.mp last
      rw [Option.map_some, List.max?_eq_some_iff]
      rw [split] at perm sorted
      refine ⟨List.mem_map_of_mem (perm.subset (by simp)), fun text member => ?_⟩
      obtain ⟨other, inside, rfl⟩ := List.mem_map.mp member
      rcases List.mem_append.mp (perm.symm.subset inside) with early | final
      · exact (List.pairwise_append.mp sorted).2.2 other early row (by simp)
      · rw [List.mem_singleton.mp final]

/-- On any table, what is loaded carries the maximal revision of its rows. -/
theorem loadFromConnection_revision [UlidParser] {t : EventsTable} {id : AggregateId}
    {aggregate : Aggregate} (h : loadFromConnection t id = .ok aggregate) :
    Revision.fromStr (coalesceMax t id) = .ok aggregate.revision := by
  unfold loadFromConnection at h
  rw [coalesceMax, t.maxRevision_eq_last]
  split at h
  · cases h
  · next events loaded =>
      cases h
      rcases List.eq_nil_or_concat (t.selectOrdered id) with nil | ⟨front, row, split⟩
      · rw [nil] at loaded ⊢
        cases loaded
        exact if_pos rfl
      · rw [List.concat_eq_append] at split
        rw [split] at loaded ⊢
        obtain ⟨before, event, rfl, rowLoaded⟩ := loadRows_append loaded
        rw [List.getLast?_append, List.getLast?_singleton, Aggregate.fromEvents,
          lastRevision_append_singleton]
        exact Row.load_revision rowLoaded

end WeeEvents.Sqlite
