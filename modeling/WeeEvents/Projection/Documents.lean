import WeeEvents.AtomicStore
import WeeEvents.Service
import WeeEvents.Sqlite.Table

/-!
# Documents and projections

The `documents` table with its revision-guarded upsert, and the two functions
that write rendered aggregates into it. A step is one call of the event store, or
one statement on the table.
-/
namespace WeeEvents.Projection
open Foundation

structure DocumentRow where
  revision : String
  data : String
  deriving DecidableEq, Repr

/-- The `documents` table: its rows by the primary key `(collection, key)`. -/
abbrev DocumentTable : Type := String × String → Option DocumentRow

/-- A projected document stored in the `documents` table. -/
structure Document where
  key : String
  revision : Revision
  data : Json

/-- `From<serde_json::Error>` -/
def serializationError (e : JsonError) : SqliteError := .backend (.serialization e.message)

def DocumentRow.document [SerdeJson] [UlidParser] (key : String) (row : DocumentRow) :
    Except SqliteError Document :=
  match SerdeJson.fromText row.data with
  | .error e => .error (serializationError e)
  | .ok value =>
      match Revision.fromStr row.revision with
      | .error e =>
          .error (.internal ("document row has invalid revision: " ++ Sqlite.revisionErrorMessage e))
      | .ok revision => .ok ⟨key, revision, value⟩

namespace DocumentTable

/-- `INSERT .. ON CONFLICT (collection, key) DO UPDATE .. WHERE excluded.revision >
documents.revision`, with the number of rows it writes. -/
def insertOrUpdate (t : DocumentTable) (collection key : String) (excluded : DocumentRow) :
    Nat × DocumentTable :=
  match t (collection, key) with
  | none => (1, Function.update t (collection, key) (some excluded))
  | some row =>
      if row.revision < excluded.revision then
        (1, Function.update t (collection, key) (some excluded))
      else (0, t)

def upsert [SerdeJson] (t : DocumentTable) (collection key : String) (revision : Revision)
    (data : Json) : Nat × DocumentTable :=
  t.insertOrUpdate collection key ⟨revision.text, SerdeJson.toText data⟩

def get [SerdeJson] [UlidParser] (t : DocumentTable) (collection key : String) :
    Except SqliteError (Option Document) :=
  match t (collection, key) with
  | none => .ok none
  | some row => (row.document key).map some

def delete (t : DocumentTable) (collection key : String) : Bool × DocumentTable :=
  ((t (collection, key)).isSome, Function.update t (collection, key) none)

end DocumentTable

/-! ### The programs -/

inductive ProjectionOp where
  | store (call : EventStoreCall)
  | enumerateAggregatesByType (type : AggregateType)
  | upsert (collection key : String) (revision : Revision) (data : Json)
  | get (collection key : String)
  | delete (collection key : String)

abbrev ProjectionOp.Res : ProjectionOp → Type
  | .store call => call.Res
  | .enumerateAggregatesByType _ => Except SqliteError (List AggregateId)
  | .upsert _ _ _ _ => Except SqliteError Nat
  | .get _ _ => Except SqliteError (Option Document)
  | .delete _ _ => Except SqliteError Bool

abbrev ProjectionProgram (α : Type) : Type :=
  Program ProjectionOp ProjectionOp.Res (Except SqliteError α)

def projectionCall (op : ProjectionOp) : Program ProjectionOp ProjectionOp.Res op.Res := .perform op

section Programs

variable {S : Type} [Inhabited S] [Serialize S] (renderer : Renderer S DecodeError)
  (collection : String)

def loadAggregate (id : AggregateId) : ProjectionProgram Aggregate :=
  mapErr (projectionCall (.store (.load id))) .weeEvents

/-- The last lines of both functions: render, serialise, upsert. -/
def writeDocument (key : String) (aggregate : Aggregate) : ProjectionProgram Unit :=
  match renderer.render aggregate with
  | .error e => .ret (.error (.weeEvents (e.into .decode)))
  | .ok entity =>
      match Serialize.toValue entity.state with
      | .error e => .ret (.error (serializationError e))
      | .ok document =>
          (projectionCall (.upsert collection key entity.revision document)).andThen fun _ =>
          .ret (.ok ())

def applyProjection (changeset : ChangeSet) : ProjectionProgram Unit :=
  (loadAggregate changeset.aggregateId).andThen fun aggregate =>
  writeDocument renderer collection changeset.aggregateId.aggregateKey aggregate

/-- `document.revision == *aggregate.revision()`, where there is a document. -/
def isCurrent (document : Option Document) (aggregate : Aggregate) : Bool :=
  match document with
  | none => false
  | some document => decide (document.revision = aggregate.revision)

/-- One iteration of the loop of `rebuild_projection`. -/
def rebuildDocument (id : AggregateId) : ProjectionProgram Unit :=
  (loadAggregate id).andThen fun aggregate =>
  (projectionCall (.get collection id.aggregateKey)).andThen fun document =>
  if isCurrent document aggregate then .ret (.ok ())
  else writeDocument renderer collection id.aggregateKey aggregate

def rebuildDocuments : List AggregateId → ProjectionProgram Unit
  | [] => .ret (.ok ())
  | id :: rest =>
      (rebuildDocument renderer collection id).andThen fun _ => rebuildDocuments rest

def rebuildProjection (type : AggregateType) : ProjectionProgram Unit :=
  (projectionCall (.enumerateAggregatesByType type)).andThen fun aggregateIds =>
  rebuildDocuments renderer collection aggregateIds

end Programs

/-! ### Steps -/

/-- The event store's log and the document store's table. -/
structure ProjectionWorld where
  log : EventLog
  documents : DocumentTable

/-- One step, as the two stores may answer it. The enumeration lists aggregates of the type, and
every one that has events; a statement that fails changes nothing. -/
inductive ProjectionStep [SerdeJson] [UlidParser] :
    ProjectionWorld → (op : ProjectionOp) → op.Res → ProjectionWorld → Prop
  | store {w : ProjectionWorld} {call : EventStoreCall} {r : call.Res} {log : EventLog} :
      StoreStep w.log call r log → ProjectionStep w (.store call) r { w with log }
  | enumerated {w : ProjectionWorld} {type : AggregateType} {ids : List AggregateId} :
      (∀ id ∈ ids, id.aggregateType = type) →
      (∀ id, id.aggregateType = type → w.log.stream id ≠ [] → id ∈ ids) →
      ProjectionStep w (.enumerateAggregatesByType type) (.ok ids) w
  | enumerationFailed {w : ProjectionWorld} {type : AggregateType} {e : SqliteError} :
      ProjectionStep w (.enumerateAggregatesByType type) (.error e) w
  | upserted {w : ProjectionWorld} {collection key : String} {revision : Revision} {data : Json} :
      ProjectionStep w (.upsert collection key revision data)
        (.ok (w.documents.upsert collection key revision data).1)
        { w with documents := (w.documents.upsert collection key revision data).2 }
  | upsertFailed {w : ProjectionWorld} {collection key : String} {revision : Revision} {data : Json}
      {e : SqliteError} : ProjectionStep w (.upsert collection key revision data) (.error e) w
  | got {w : ProjectionWorld} {collection key : String} :
      ProjectionStep w (.get collection key) (w.documents.get collection key) w
  | getFailed {w : ProjectionWorld} {collection key : String} {e : SqliteError} :
      ProjectionStep w (.get collection key) (.error e) w
  | deleted {w : ProjectionWorld} {collection key : String} :
      ProjectionStep w (.delete collection key) (.ok (w.documents.delete collection key).1)
        { w with documents := (w.documents.delete collection key).2 }
  | deleteFailed {w : ProjectionWorld} {collection key : String} {e : SqliteError} :
      ProjectionStep w (.delete collection key) (.error e) w

/-! ### The table and its documents -/

namespace DocumentTable

variable {t : DocumentTable} {collection key : String} {excluded row : DocumentRow}

/-- The upsert writes its row when there is none or an older one. -/
theorem insertOrUpdate_writes
    (older : ∀ row, t (collection, key) = some row → row.revision < excluded.revision) :
    (t.insertOrUpdate collection key excluded).2 =
      Function.update t (collection, key) (some excluded) := by
  unfold insertOrUpdate
  split
  · rfl
  · next row found => rw [if_pos (older row found)]

/-- The upsert ignores a row that is not newer than the stored one. -/
theorem insertOrUpdate_ignores (found : t (collection, key) = some row)
    (notNewer : ¬ row.revision < excluded.revision) :
    (t.insertOrUpdate collection key excluded).2 = t := by
  unfold insertOrUpdate
  rw [found]
  dsimp only
  rw [if_neg notNewer]

theorem insertOrUpdate_of_ne {collection' key' : String}
    (other : (collection', key') ≠ (collection, key)) :
    (t.insertOrUpdate collection key excluded).2 (collection', key') = t (collection', key') := by
  unfold insertOrUpdate
  split
  · exact Function.update_of_ne other ..
  · split
    · exact Function.update_of_ne other ..
    · rfl

/-- After an upsert the row is the written one, or the one that was there. -/
theorem insertOrUpdate_self (t : DocumentTable) (collection key : String) (excluded : DocumentRow) :
    (t.insertOrUpdate collection key excluded).2 (collection, key) = some excluded ∨
      (t.insertOrUpdate collection key excluded).2 (collection, key) = t (collection, key) := by
  unfold insertOrUpdate
  split
  · exact .inl (Function.update_self ..)
  · split
    · exact .inl (Function.update_self ..)
    · exact .inr rfl

/-- After an upsert there is a row at least as new as the written one. -/
theorem insertOrUpdate_recent (t : DocumentTable) (collection key : String) (excluded : DocumentRow) :
    ∃ row, (t.insertOrUpdate collection key excluded).2 (collection, key) = some row ∧
      excluded.revision ≤ row.revision := by
  cases found : t (collection, key) with
  | none =>
      refine ⟨excluded, ?_, le_rfl⟩
      rw [insertOrUpdate_writes fun row found' => by rw [found] at found'; cases found']
      exact Function.update_self ..
  | some row =>
      by_cases newer : row.revision < excluded.revision
      · refine ⟨excluded, ?_, le_rfl⟩
        rw [insertOrUpdate_writes fun row' found' => ?_]
        · exact Function.update_self ..
        · rw [found] at found'
          cases found'
          exact newer
      · refine ⟨row, ?_, not_lt.mp newer⟩
        rw [insertOrUpdate_ignores found newer]
        exact found

/-- An upsert never lowers the revision of a row. -/
theorem insertOrUpdate_increases {collection' key' : String}
    (found : t (collection', key') = some row) :
    ∃ row', (t.insertOrUpdate collection key excluded).2 (collection', key') = some row' ∧
      row.revision ≤ row'.revision := by
  by_cases other : (collection', key') = (collection, key)
  · cases other
    by_cases newer : row.revision < excluded.revision
    · refine ⟨excluded, ?_, newer.le⟩
      rw [insertOrUpdate_writes fun row' found' => ?_]
      · exact Function.update_self ..
      · rw [found] at found'
        cases found'
        exact newer
    · exact ⟨row, by rw [insertOrUpdate_ignores found newer]; exact found, le_rfl⟩
  · exact ⟨row, by rw [insertOrUpdate_of_ne other]; exact found, le_rfl⟩

end DocumentTable

section Rendered

variable {S : Type} [Inhabited S] [Serialize S]

/-- The document is the rendering of these events of the aggregate, at their revision. -/
structure Document.Renders (document : Document) (renderer : Renderer S DecodeError)
    (id : AggregateId) (events : List RecordedEvent) : Prop where
  key : document.key = id.aggregateKey
  rendered : ∃ entity, renderer.render (Aggregate.fromEvents id events) = .ok entity ∧
    document.revision = entity.revision ∧ Serialize.toValue entity.state = .ok document.data

theorem Document.Renders.revision {document : Document} {renderer : Renderer S DecodeError}
    {id : AggregateId} {events : List RecordedEvent} (h : document.Renders renderer id events) :
    document.revision = lastRevision events := by
  obtain ⟨entity, rendered, revision, -⟩ := h.rendered
  rw [revision, (Renderer.render_eq_ok.mp rendered).2.1]
  rfl

/-- The state that an aggregate renders to is read back from its text. -/
def StateReadsBack [SerdeJson] (renderer : Renderer S DecodeError) (aggregate : Aggregate) : Prop :=
  ∀ entity data, renderer.render aggregate = .ok entity → Serialize.toValue entity.state = .ok data →
    data.ReadsBack

theorem Document.Renders.readsBack_iff [SerdeJson] {document : Document} {renderer : Renderer S DecodeError}
    {id : AggregateId} {events : List RecordedEvent} (h : document.Renders renderer id events) :
    document.data.ReadsBack ↔ StateReadsBack renderer (Aggregate.fromEvents id events) := by
  obtain ⟨entity, rendered, -, serialized⟩ := h.rendered
  constructor
  · intro reads entity' data rendered' serialized'
    cases rendered.symm.trans rendered'
    cases serialized.symm.trans serialized'
    exact reads
  · exact fun reads => reads entity document.data rendered serialized

/-- The row the upsert of a document writes. -/
def Document.row [SerdeJson] (document : Document) : DocumentRow :=
  ⟨document.revision.text, SerdeJson.toText document.data⟩

/-- A written document is read back exactly when its data is. -/
theorem Document.document_row [SerdeJson] [UlidParser] (document : Document) :
    document.row.document document.key = .ok document ↔ document.data.ReadsBack := by
  obtain ⟨key, revision, data⟩ := document
  simp only [row, DocumentRow.document, Revision.fromStr_text, Json.ReadsBack]
  cases SerdeJson.fromText (SerdeJson.toText data) with
  | error e => exact ⟨nofun, nofun⟩
  | ok value => simp

/-- Whatever is read of a written row, its revision is the one that was written. -/
theorem Document.revision_of_row [SerdeJson] [UlidParser] {document read : Document} {key : String}
    (parsed : document.row.document key = .ok read) : read.revision = document.revision := by
  unfold DocumentRow.document at parsed
  split at parsed
  · cases parsed
  · have revision : Revision.fromStr document.row.revision = .ok document.revision := Revision.fromStr_text _
    rw [revision] at parsed
    cases parsed
    rfl

/-- The row of the document is stored, and the document is got where its data reads back. -/
structure DocumentTable.Holds [SerdeJson] [UlidParser] (t : DocumentTable) (collection : String)
    (document : Document) : Prop where
  row : t (collection, document.key) = some document.row
  got : t.get collection document.key = .ok (some document) ↔ document.data.ReadsBack

theorem DocumentTable.holds_of_row [SerdeJson] [UlidParser] {t : DocumentTable} {collection : String}
    {document : Document} (found : t (collection, document.key) = some document.row) :
    t.Holds collection document := by
  refine ⟨found, ?_⟩
  rw [← document.document_row, DocumentTable.get, found]
  dsimp only
  cases document.row.document document.key with
  | error e => exact ⟨nofun, nofun⟩
  | ok read => simp [Except.map]

theorem DocumentTable.row_of_get [SerdeJson] [UlidParser] {t : DocumentTable} {collection key : String}
    {document : Document}
    (got : t.get collection key = .ok (some document)) :
    ∃ row, t (collection, key) = some row ∧ row.document key = .ok document := by
  unfold DocumentTable.get at got
  split at got
  · cases got
  · next row found =>
      cases parsed : row.document key with
      | error e => rw [parsed] at got; cases got
      | ok document' =>
          rw [parsed] at got
          cases got
          exact ⟨row, found, parsed⟩

theorem DocumentTable.get_ne_none [SerdeJson] [UlidParser] {t : DocumentTable} {collection key : String}
    {row : DocumentRow} (found : t (collection, key) = some row) : t.get collection key ≠ .ok none := by
  unfold DocumentTable.get
  rw [found]
  dsimp only
  cases row.document key with
  | error e => nofun
  | ok document => nofun

/-! ### Projections that run alone -/

section Alone

variable [SerdeJson] [UlidParser] {renderer : Renderer S DecodeError} {collection : String}
  {id : AggregateId} {w w' : ProjectionWorld}

theorem runs_loadAggregate {r : Except SqliteError Aggregate}
    (run : Program.Runs ProjectionStep w (loadAggregate id) r w') :
    w' = w ∧ ∀ aggregate, r = .ok aggregate →
      aggregate = Aggregate.fromEvents id (w.log.stream id) := by
  obtain ⟨inner, rfl, loaded⟩ := runs_of_mapErr run
  cases Program.runs_perform.mp loaded with
  | store stored =>
      obtain rfl := stored.load_log
      refine ⟨rfl, fun aggregate same => ?_⟩
      cases inner with
      | error e => cases same
      | ok loadedAggregate =>
          cases same
          exact stored.load_ok.1

/-- Writing the document of a loaded aggregate upserts its rendering, or changes nothing. -/
theorem runs_writeDocument {r : Except SqliteError Unit} {events : List RecordedEvent}
    (run : Program.Runs ProjectionStep w
      (writeDocument renderer collection id.aggregateKey (Aggregate.fromEvents id events)) r w') :
    (∃ e, r = .error e ∧ w' = w) ∨ r = .ok () ∧ ∃ document : Document, document.Renders renderer id events ∧
      w' = { w with documents :=
        (w.documents.insertOrUpdate collection id.aggregateKey document.row).2 } := by
  unfold writeDocument at run
  split at run
  · obtain ⟨rfl, rfl⟩ := Program.runs_ret.mp run
    exact .inl ⟨_, rfl, rfl⟩
  · next entity rendered =>
      split at run
      · obtain ⟨rfl, rfl⟩ := Program.runs_ret.mp run
        exact .inl ⟨_, rfl, rfl⟩
      · next data serialized =>
          rcases run.of_andThen with ⟨e, rfl, failed⟩ | ⟨rows, w₁, upserted, finish⟩
          · cases Program.runs_perform.mp failed
            exact .inl ⟨e, rfl, rfl⟩
          · obtain ⟨rfl, rfl⟩ := Program.runs_ret.mp finish
            cases Program.runs_perform.mp upserted
            refine .inr ⟨rfl, ⟨id.aggregateKey, entity.revision, data⟩, ⟨rfl, ?_⟩, rfl⟩
            exact ⟨entity, rendered, rfl, serialized⟩

/-- `apply_projection`, run alone. -/
theorem runs_applyProjection {changeset : ChangeSet} {r : Except SqliteError Unit}
    (run : Program.Runs ProjectionStep w (applyProjection renderer collection changeset) r w') :
    (∃ e, r = .error e ∧ w' = w) ∨ r = .ok () ∧ ∃ document : Document,
      document.Renders renderer changeset.aggregateId (w.log.stream changeset.aggregateId) ∧
      w' = { w with documents := (w.documents.insertOrUpdate collection
        changeset.aggregateId.aggregateKey document.row).2 } := by
  rcases run.of_andThen with ⟨e, rfl, loading⟩ | ⟨aggregate, w₁, loading, writing⟩
  · exact .inl ⟨e, rfl, (runs_loadAggregate loading).1⟩
  · obtain ⟨rfl, loaded⟩ := runs_loadAggregate loading
    obtain rfl := loaded aggregate rfl
    exact runs_writeDocument writing

end Alone

end Rendered

/-! ### A collection of orders -/

section Orders

/-- Both stores answer at once and nothing fails; nothing is published. -/
def serveProjection [SerdeJson] [UlidParser] (op : ProjectionOp) (w : ProjectionWorld) :
    Option (op.Res × ProjectionWorld) :=
  match op with
  | .store (.load id) => some (.ok (Aggregate.fromEvents id (w.log.stream id)), w)
  | .store (.publish _ _ _) => none
  | .enumerateAggregatesByType type =>
      some (.ok ((w.log.map Prod.fst).filter (·.aggregateType = type)), w)
  | .upsert collection key revision data =>
      let (rows, documents) := w.documents.upsert collection key revision data
      some (.ok rows, { w with documents })
  | .get collection key => some (w.documents.get collection key, w)
  | .delete collection key =>
      let (removed, documents) := w.documents.delete collection key
      some (.ok removed, { w with documents })

theorem serveProjection_step [SerdeJson] [UlidParser] {op : ProjectionOp} {w w' : ProjectionWorld}
    {r : op.Res} (served : serveProjection op w = some (r, w')) : ProjectionStep w op r w' := by
  cases op with
  | store call =>
      cases call with
      | load id =>
          cases served
          exact .store .loaded
      | publish id options events => cases served
  | enumerateAggregatesByType type =>
      cases served
      refine .enumerated (fun id member => ?_) fun id ofType nonempty => ?_
      · exact of_decide_eq_true (List.mem_filter.mp member).2
      · obtain ⟨event, inStream⟩ := List.exists_mem_of_ne_nil _ nonempty
        have inLog := List.mem_map_of_mem (f := Prod.fst) (EventLog.mem_stream.mp inStream)
        exact List.mem_filter.mpr ⟨inLog, decide_eq_true ofType⟩
  | upsert collection key revision data =>
      cases served
      exact .upserted
  | get collection key =>
      cases served
      exact .got
  | delete collection key =>
      cases served
      exact .deleted

def order42 : AggregateId := ⟨⟨"order"⟩, "42"⟩

/-- The renderer counts the events. -/
def countingRenderer : Renderer Nat DecodeError :=
  Renderer.new.register (.exact ⟨"placed"⟩) fun count _ _ => .ok (count + 1)

def placed (revision : Ulid) : RecordedEvent where
  eventId := ⟨"e"⟩
  eventType := ⟨"placed"⟩
  revision := Revision.fromUlid revision
  metadata := ⟨none, none⟩
  data := ⟨.json, []⟩

/-- One order with one event. -/
def oneOrder : EventLog := entries order42 [placed 1]

theorem oneOrder_ordered : oneOrder.Ordered :=
  EventLog.ordered_of_increasing (List.pairwise_singleton _ _) (by decide +kernel)

end Orders
end WeeEvents.Projection
