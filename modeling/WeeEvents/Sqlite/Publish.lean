import WeeEvents.Sqlite.Table

/-!
# One publish transaction

`execute_publish_statement` and `try_publish_once`: the statements of one
`BEGIN IMMEDIATE` transaction. Each operation that can fail does so as a
failure plan says, so that a theorem about every plan covers every pattern of
failures. A transaction that is dropped leaves the table as it was.
-/
namespace WeeEvents.Sqlite

/-- Which operations of one transaction attempt fail, and how. Inserts are
numbered by the event they write; ulid generation fails as the generator says. -/
structure AttemptFailures where
  begin : Option LibsqlError := none
  insert : Nat → Option LibsqlError := fun _ => none
  currentRevision : Option LibsqlError := none
  commit : Option LibsqlError := none

structure PublishConflict where
  expected : Revision
  actual : Revision
  attemptedRevision : Revision
  deriving DecidableEq

inductive PublishAttemptError where
  | conflict (c : PublishConflict)
  | store (e : SqliteError)
  deriving DecidableEq

def monotonicErrorMessage : MonotonicError → String
  | .overflow => "Ulid random bits would overflow"

/-- `EventStore::generate_ulid` -/
def generateUlid (g : Generator) : Except SqliteError Ulid × Generator :=
  match g.generate with
  | (.error e, g) => (.error (.internal (monotonicErrorMessage e)), g)
  | (.ok u, g) => (.ok u, g)

/-- `EventStore::current_revision` -/
def currentRevision (t : EventsTable) (id : AggregateId) (failure : Option LibsqlError) :
    Except SqliteError (Option String) :=
  match failure with
  | some e => .error (.libsql e)
  | none => .ok (t.maxRevision id)

structure PublishRow where
  index : Nat
  aggregateId : AggregateId
  options : PublishOptions
  raw : RawEvent
  metadata : EventMetadata
  eventId : EventId
  revision : Revision

/-- The event a publish row binds to the nine columns. -/
def PublishRow.event (row : PublishRow) : RecordedEvent :=
  row.raw.record row.metadata row.eventId row.revision

/-- `INSERT .. SELECT .. WHERE guard`: the number of rows changed and the new table. -/
def insertWhere (tx : EventsTable) (guard : Bool) (row : Row) :
    Except SqliteError (Nat × EventsTable) :=
  if guard then
    match tx.insert row with
    | .error e => .error (.libsql e)
    | .ok tx' => .ok (1, tx')
  else .ok (0, tx)

def executePublishStatement (tx : EventsTable) (row : PublishRow) :
    Except SqliteError (Nat × EventsTable) :=
  let values := Row.store row.aggregateId row.event
  match row.index, row.options.expectedRevision with
  | 0, some expected =>
      if expected.isZero then insertWhere tx (sqlInitial tx row.aggregateId) values
      else insertWhere tx (sqlExact tx row.aggregateId row.revision.text expected) values
  | _, _ => insertWhere tx (sqlAdvance tx row.aggregateId row.revision.text) values

/-- The conflict branch: an insert that changed no row. -/
def reportConflict [UlidParser] (tx : EventsTable) (id : AggregateId) (options : PublishOptions)
    (attemptedRevision : Revision) (failure : Option LibsqlError) : PublishAttemptError :=
  match currentRevision tx id failure with
  | .error e => .store e
  | .ok none => .conflict
      ⟨options.expectedRevision.getD attemptedRevision, Revision.zero, attemptedRevision⟩
  | .ok (some value) =>
      match Revision.fromStr value with
      | .error e => .store (.internal ("stored revision is invalid: " ++ revisionErrorMessage e))
      | .ok actual => .conflict
          ⟨options.expectedRevision.getD attemptedRevision, actual, attemptedRevision⟩

/-- The body of the loop over the events, for the event at `index`. -/
def publishEvent [UlidParser] (failures : AttemptFailures) (id : AggregateId)
    (options : PublishOptions) (index : Nat) (g : Generator) (tx : EventsTable) (raw : RawEvent) :
    Except PublishAttemptError (RecordedEvent × EventsTable) × Generator :=
  match generateUlid g with
  | (.error e, g) => (.error (.store e), g)
  | (.ok eventIdUlid, g) =>
      match generateUlid g with
      | (.error e, g) => (.error (.store e), g)
      | (.ok revisionUlid, g) =>
          let row : PublishRow := {
            index, aggregateId := id, options, raw, metadata := options.metadata
            eventId := ⟨eventIdUlid.toText⟩, revision := Revision.fromUlid revisionUlid }
          match failures.insert index with
          | some e => (.error (.store (.libsql e)), g)
          | none =>
              match executePublishStatement tx row with
              | .error e => (.error (.store e), g)
              | .ok (0, _) => (.error
                  (reportConflict tx id options row.revision failures.currentRevision), g)
              | .ok (_ + 1, tx') => (.ok (row.event, tx'), g)

def publishEvents [UlidParser] (failures : AttemptFailures) (id : AggregateId)
    (options : PublishOptions) : Nat → Generator → EventsTable → List RawEvent →
    Except PublishAttemptError (List RecordedEvent × EventsTable) × Generator
  | _, g, tx, [] => (.ok ([], tx), g)
  | index, g, tx, raw :: rest =>
      match publishEvent failures id options index g tx raw with
      | (.error e, g) => (.error e, g)
      | (.ok (event, tx), g) =>
          match publishEvents failures id options (index + 1) g tx rest with
          | (.error e, g) => (.error e, g)
          | (.ok (recorded, tx), g) => (.ok (event :: recorded, tx), g)

/-- `EventStore::try_publish_once`: the outcome, the generator after the draws
and the committed table. The list of events is never empty here. -/
def tryPublishOnce [UlidParser] (failures : AttemptFailures) (g : Generator) (t : EventsTable)
    (id : AggregateId) (options : PublishOptions) (events : List RawEvent) :
    Except PublishAttemptError ChangeSet × Generator × EventsTable :=
  match failures.begin with
  | some e => (.error (.store (.libsql e)), g, t)
  | none =>
      match publishEvents failures id options 0 g t events with
      | (.error e, g) => (.error e, g, t)
      | (.ok (recorded, tx), g) =>
          match failures.commit with
          | some e => (.error (.store (.libsql e)), g, t)
          | none => (.ok ⟨id, lastRevision recorded, recorded⟩, g, tx)

/-! What one event, and one attempt, can do. -/

/-- The guard of the statement chosen for an event: the mode of the first event
is the caller's, every later one only advances. -/
def publishGuard (tx : EventsTable) (id : AggregateId) (options : PublishOptions) (index : Nat)
    (revision : Revision) : Bool :=
  match index, options.expectedRevision with
  | 0, some expected =>
      if expected.isZero then sqlInitial tx id else sqlExact tx id revision.text expected
  | _, _ => sqlAdvance tx id revision.text

theorem executePublishStatement_eq (tx : EventsTable) (row : PublishRow) :
    executePublishStatement tx row = insertWhere tx
      (publishGuard tx row.aggregateId row.options row.index row.revision)
      (Row.store row.aggregateId row.event) := by
  unfold executePublishStatement publishGuard
  split <;> (try split) <;> rfl

theorem insertWhere_true {tx : EventsTable} {row : Row} {n : Nat} {tx' : EventsTable}
    (h : insertWhere tx true row = .ok (n + 1, tx')) :
    tx.Admits row ∧ tx'.rows = tx.rows ++ [row] := by
  simp only [insertWhere, if_true] at h
  cases inserted : tx.insert row with
  | error e => simp [inserted] at h
  | ok t =>
      simp only [inserted, Except.ok.injEq, Prod.mk.injEq] at h
      exact h.2 ▸ EventsTable.insert_ok inserted

theorem publishEvent_ok [UlidParser] {failures : AttemptFailures} {id : AggregateId}
    {options : PublishOptions} {index : Nat} {g g' : Generator} {tx tx' : EventsTable}
    {raw : RawEvent} {event : RecordedEvent}
    (h : publishEvent failures id options index g tx raw = (.ok (event, tx'), g')) :
    ∃ u v, g.Mints u v ∧ g' = g.advance 2 ∧
      event = raw.record options.metadata ⟨u.toText⟩ (Revision.fromUlid v) ∧
      publishGuard tx id options index (Revision.fromUlid v) = true ∧
      tx.Admits (Row.store id event) ∧ tx'.rows = tx.rows ++ [Row.store id event] := by
  unfold publishEvent generateUlid Generator.generate at h
  simp only [executePublishStatement_eq] at h
  cases hu : g.outcome g.drawn with
  | error e => simp [hu] at h
  | ok u =>
      cases hv : g.outcome (g.drawn + 1) with
      | error e => simp [hu, hv] at h
      | ok v =>
          simp only [hu, hv] at h
          cases hf : failures.insert index with
          | some e => simp [hf] at h
          | none =>
              simp only [hf] at h
              cases hg : publishGuard tx id options index (Revision.fromUlid v) with
              | false => simp [hg, insertWhere] at h
              | true =>
                  simp only [hg] at h
                  split at h
                  · cases h
                  · cases h
                  · next n tx₁ inserted =>
                      cases h
                      exact ⟨u, v, ⟨hu, hv⟩, rfl, rfl, hg, insertWhere_true inserted⟩

/-- A conflict is reported by an insert that ran and whose guard did not hold. -/
theorem publishEvent_conflict [UlidParser] {failures : AttemptFailures} {id : AggregateId}
    {options : PublishOptions} {index : Nat} {g g' : Generator} {tx : EventsTable}
    {raw : RawEvent} {c : PublishConflict}
    (h : publishEvent failures id options index g tx raw = (.error (.conflict c), g')) :
    ∃ u v, g.Mints u v ∧ failures.insert index = none ∧
      publishGuard tx id options index (Revision.fromUlid v) = false ∧
      reportConflict tx id options (Revision.fromUlid v) failures.currentRevision = .conflict c := by
  unfold publishEvent generateUlid Generator.generate at h
  simp only [executePublishStatement_eq] at h
  cases hu : g.outcome g.drawn with
  | error e => simp [hu] at h
  | ok u =>
      cases hv : g.outcome (g.drawn + 1) with
      | error e => simp [hu, hv] at h
      | ok v =>
          simp only [hu, hv] at h
          cases hf : failures.insert index with
          | some e => simp [hf] at h
          | none =>
              simp only [hf] at h
              cases hg : publishGuard tx id options index (Revision.fromUlid v) with
              | true =>
                  simp only [hg] at h
                  split at h <;> simp_all [insertWhere]
                  split at * <;> simp_all
              | false =>
                  simp only [hg, insertWhere, Bool.false_eq_true, if_false, Prod.mk.injEq,
                    Except.error.injEq] at h
                  exact ⟨u, v, ⟨hu, hv⟩, rfl, hg, h.1⟩

end WeeEvents.Sqlite
