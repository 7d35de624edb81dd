import WeeEvents.Store

/-!
# The in-memory event store

`MemoryStore` as programs over its locks: one operation is what happens under
one acquisition of a map shard, a stream lock or the generator lock. Map entries
are only ever added, each with a stream of its own, and the map carries that.
-/
namespace WeeEvents.Memory
open Foundation

/-- The address of an `Arc<RwLock<Vec<..>>>`. -/
abbrev Stream : Type := Nat

/-- A stream and the call that holds its write lock. -/
structure StreamCell where
  events : List RecordedEvent := []
  writer : Option Nat := none

/-- The map from aggregates to streams, and the next stream to allocate. -/
structure StreamMap where
  entries : AList fun _ : AggregateId => Stream
  next : Stream
  allocated : ∀ {id s}, entries.lookup id = some s → s < next
  distinct : ∀ {id id' s}, entries.lookup id = some s → entries.lookup id' = some s → id = id'

namespace StreamMap

def empty : StreamMap where
  entries := ∅
  next := 0
  allocated h := by simp at h
  distinct h := by simp at h

def get (m : StreamMap) (id : AggregateId) : Option Stream := m.entries.lookup id

def keys (m : StreamMap) : List AggregateId := m.entries.keys

/-- An entry for a new stream. -/
def insertNew (m : StreamMap) (id : AggregateId) (_absent : m.get id = none) : StreamMap where
  entries := m.entries.insert id m.next
  next := m.next + 1
  allocated {id' s} h := by
    rcases eq_or_ne id' id with rfl | ne
    · rw [AList.lookup_insert] at h
      cases h
      exact Nat.lt_succ_self _
    · rw [AList.lookup_insert_ne ne] at h
      exact Nat.lt_succ_of_lt (m.allocated h)
  distinct {a b s} ha hb := by
    rcases eq_or_ne a id with rfl | neA
    · rcases eq_or_ne b a with rfl | neB
      · rfl
      · rw [AList.lookup_insert] at ha
        rw [AList.lookup_insert_ne neB] at hb
        cases ha
        exact absurd (m.allocated hb) (lt_irrefl _)
    · rcases eq_or_ne b id with rfl | neB
      · rw [AList.lookup_insert] at hb
        rw [AList.lookup_insert_ne neA] at ha
        cases hb
        exact absurd (m.allocated ha) (lt_irrefl _)
      · rw [AList.lookup_insert_ne neA] at ha
        rw [AList.lookup_insert_ne neB] at hb
        exact m.distinct ha hb

@[simp] theorem get_empty (id : AggregateId) : empty.get id = none := AList.lookup_empty id

@[simp] theorem get_insertNew_self {m : StreamMap} {id : AggregateId} (absent : m.get id = none) :
    (m.insertNew id absent).get id = some m.next := AList.lookup_insert _

theorem get_insertNew_ne {m : StreamMap} {id other : AggregateId} (absent : m.get id = none)
    (ne : other ≠ id) : (m.insertNew id absent).get other = m.get other :=
  AList.lookup_insert_ne ne

/-- Entries are never removed. -/
theorem get_insertNew_of_get {m : StreamMap} {id other : AggregateId} {s : Stream}
    (absent : m.get id = none) (h : m.get other = some s) :
    (m.insertNew id absent).get other = some s := by
  have ne : other ≠ id := by
    rintro rfl
    rw [absent] at h
    cases h
  rw [get_insertNew_ne absent ne, h]

end StreamMap

@[ext] structure Backing where
  streams : StreamMap
  cells : Stream → StreamCell
  generator : Generator

def Backing.new (generator : Generator) : Backing := ⟨.empty, fun _ => {}, generator⟩

inductive MemoryOp where
  /-- `streams.get(id)`, with the `Arc` cloned. -/
  | get (id : AggregateId)
  /-- `streams.entry(id).or_insert_with(..)` -/
  | entryOrInsert (id : AggregateId)
  /-- `stream.read()` and what is read under it. -/
  | readEvents (s : Stream)
  /-- `stream.write()` -/
  | writeLock (s : Stream)
  /-- The events seen through the write guard. -/
  | guardedEvents (s : Stream)
  /-- `mint_event_ids`, under the generator lock. -/
  | mintEventIds (count : Nat)
  /-- `events_guard.extend(..)` -/
  | extendEvents (s : Stream) (events : List RecordedEvent)
  /-- The write guard is dropped. -/
  | unlock (s : Stream)

abbrev MemoryOp.Res : MemoryOp → Type
  | get _ => Option Stream
  | entryOrInsert _ => Stream
  | readEvents _ => List RecordedEvent
  | writeLock _ => Unit
  | guardedEvents _ => List RecordedEvent
  | mintEventIds _ => Except MonotonicError (List (EventId × Revision))
  | extendEvents _ _ => Unit
  | unlock _ => Unit

abbrev MemoryProgram (α : Type) : Type := Program MemoryOp MemoryOp.Res α

def memoryCall (op : MemoryOp) : MemoryProgram op.Res := .perform op

/-- The loop of `mint_event_ids`. -/
def mintEventIds : Nat → Generator → Except MonotonicError (List (EventId × Revision)) × Generator
  | 0, g => (.ok [], g)
  | count + 1, g =>
      match g.generate with
      | (.error e, g) => (.error e, g)
      | (.ok eventId, g) =>
          match g.generate with
          | (.error e, g) => (.error e, g)
          | (.ok revision, g) =>
              match mintEventIds count g with
              | (.error e, g) => (.error e, g)
              | (.ok out, g) => (.ok ((⟨eventId.toText⟩, Revision.fromUlid revision) :: out), g)

/-! ### The methods -/

def loadSync (id : AggregateId) : MemoryProgram Aggregate :=
  (memoryCall (.get id)).bind fun
    | some stream => (memoryCall (.readEvents stream)).bind fun events =>
        if events.isEmpty then .ret (Aggregate.empty id) else .ret (Aggregate.fromEvents id events)
    | none => .ret (Aggregate.empty id)

def currentRevisionSync (id : AggregateId) : MemoryProgram Revision :=
  (memoryCall (.get id)).bind fun
    | some stream => (memoryCall (.readEvents stream)).bind fun events =>
        .ret ((events.getLast?.map RecordedEvent.revision).getD Revision.zero)
    | none => .ret Revision.zero

def streamFor (id : AggregateId) : MemoryProgram Stream :=
  (memoryCall (.get id)).bind fun
    | some existing => .ret existing
    | none => memoryCall (.entryOrInsert id)

def recordAll (metadata : EventMetadata) (events : List RawEvent)
    (minted : List (EventId × Revision)) : List RecordedEvent :=
  List.zipWith (fun raw ids => raw.record metadata ids.1 ids.2) events minted

/-- The rest of `publish_sync` once the expectation holds under the write guard. -/
def mintAndAppend (id : AggregateId) (options : PublishOptions) (events : List RawEvent)
    (stream : Stream) : MemoryProgram (Except Error ChangeSet) :=
  (memoryCall (.mintEventIds events.length)).bind fun
    | .error e => (memoryCall (.unlock stream)).bind fun _ => .ret (.error (.custom (.monotonic e)))
    | .ok minted =>
        let recorded := recordAll options.metadata events minted
        (memoryCall (.extendEvents stream recorded)).bind fun _ =>
        (memoryCall (.unlock stream)).bind fun _ => .ret (.ok ⟨id, lastRevision recorded, recorded⟩)

/-- The comparison of `publish_sync`; a stream without events has revision zero. -/
def matching (actualRef : Option Revision) (expected : Revision) : Bool :=
  match actualRef with
  | some r => decide (r = expected)
  | none => expected.isZero

/-- `publish_sync` once it has the stream: lock, check the expectation again, append. -/
def publishTo (id : AggregateId) (options : PublishOptions) (events : List RawEvent)
    (stream : Stream) : MemoryProgram (Except Error ChangeSet) :=
  (memoryCall (.writeLock stream)).bind fun _ =>
  (memoryCall (.guardedEvents stream)).bind fun eventsGuard =>
  match options.expectedRevision with
  | none => mintAndAppend id options events stream
  | some expected =>
      let actualRef := eventsGuard.getLast?.map RecordedEvent.revision
      if !matching actualRef expected then
        (memoryCall (.unlock stream)).bind fun _ =>
        .ret (.error (.revisionConflict expected (actualRef.getD Revision.zero)))
      else mintAndAppend id options events stream

def publishSync (id : AggregateId) (options : PublishOptions) (events : List RawEvent) :
    MemoryProgram (Except Error ChangeSet) :=
  (memoryCall (.get id)).bind fun
    | some stream => publishTo id options events stream
    | none =>
        match options.expectedRevision with
        | none => (streamFor id).bind fun stream => publishTo id options events stream
        | some expected =>
            if !expected.isZero then .ret (.error (.revisionConflict expected Revision.zero))
            else (streamFor id).bind fun stream => publishTo id options events stream

def load (id : AggregateId) : MemoryProgram (Except Error Aggregate) :=
  (loadSync id).bind fun aggregate => .ret (.ok aggregate)

def publish (id : AggregateId) (options : PublishOptions) (events : List RawEvent) :
    MemoryProgram (Except Error ChangeSet) :=
  if events.isEmpty then
    (currentRevisionSync id).bind fun revision => .ret (.ok ⟨id, revision, []⟩)
  else publishSync id options events

def memoryStore : EventStore MemoryOp MemoryOp.Res := ⟨load, publish⟩

/-! ### What the operations do -/

def Backing.setCell (b : Backing) (s : Stream) (cell : StreamCell) : Backing :=
  { b with cells := Function.update b.cells s cell }

/-- One operation of call `c`; taking a lock that another call holds does not answer. -/
def serveMemory (c : Nat) (op : MemoryOp) (b : Backing) : Option (op.Res × Backing) :=
  match op with
  | .get id => some (b.streams.get id, b)
  | .entryOrInsert id =>
      match h : b.streams.get id with
      | some s => some (s, b)
      | none => some (b.streams.next,
          { b with streams := b.streams.insertNew id h
                   cells := Function.update b.cells b.streams.next {} })
  | .readEvents s =>
      if (b.cells s).writer.isSome then none else some ((b.cells s).events, b)
  | .writeLock s =>
      if (b.cells s).writer.isSome then none
      else some ((), b.setCell s { b.cells s with writer := some c })
  | .guardedEvents s => some ((b.cells s).events, b)
  | .mintEventIds count =>
      let (minted, generator) := mintEventIds count b.generator
      some (minted, { b with generator })
  | .extendEvents s events =>
      some ((), b.setCell s { b.cells s with events := (b.cells s).events ++ events })
  | .unlock s => some ((), b.setCell s { b.cells s with writer := none })

/-! ### Enumeration -/

def enumerateAggregates (b : Backing) : List AggregateId := b.streams.keys

theorem mem_enumerateAggregates {b : Backing} {id : AggregateId} :
    id ∈ enumerateAggregates b ↔ b.streams.get id ≠ none := by
  rw [enumerateAggregates, StreamMap.keys, ← AList.mem_keys, StreamMap.get,
    ← Option.isSome_iff_ne_none, AList.lookup_isSome]

def enumerateAggregatesByType (b : Backing) (type : AggregateType) : List AggregateId :=
  b.streams.keys.filter (·.aggregateType == type)

/-- The events of an aggregate, none without an entry. -/
def Backing.events (b : Backing) (id : AggregateId) : List RecordedEvent :=
  match b.streams.get id with
  | some s => (b.cells s).events
  | none => []

end WeeEvents.Memory
