import WeeEvents.Memory.Phases

/-!
# The backing store as a mirror of the sequential object

Between two operations the backing store holds the log of the sequential object,
except for the batches that were minted and not yet appended: their streams are
still write-locked. Each operation that changes the backing store keeps this.
-/
namespace WeeEvents.Memory
open Foundation

/-- What each stream still lacks of the object's log. -/
abbrev Pending : Type := Stream → List RecordedEvent

structure Mirrors (m : MemoryModel) (pending : Pending) (b : Backing) : Prop where
  generator : m.generator = b.generator
  present : ∀ id s, b.streams.get id = some s →
    m.log.stream id = (b.cells s).events ++ pending s
  absent : ∀ id, b.streams.get id = none → m.log.stream id = []
  idle : ∀ s, (b.cells s).writer = none → pending s = []
  unallocated : ∀ s, b.streams.next ≤ s → b.cells s = {}

/-- The backing store holds exactly what the batches recorded. -/
def Backing.Holds (b : Backing) (done : List Batch) : Prop := ∀ id, b.events id = streamOf done id

section Events

variable {b : Backing} {id other : AggregateId} {s : Stream}

theorem Backing.events_of_get (h : b.streams.get id = some s) : b.events id = (b.cells s).events := by
  rw [Backing.events, h]

theorem Backing.events_of_absent (h : b.streams.get id = none) : b.events id = [] := by
  rw [Backing.events, h]

theorem Mirrors.new (g : Generator) : Mirrors ⟨[], g⟩ (fun _ => []) (Backing.new g) := by
  refine ⟨rfl, ?_, fun _ _ => rfl, fun _ _ => rfl, fun _ _ => rfl⟩
  intro id s entry
  rw [Backing.new, StreamMap.get_empty] at entry
  cases entry

end Events

section Operations

variable {m : MemoryModel} {pending : Pending} {b b' : Backing} {id : AggregateId} {s : Stream}
  {c : Nat}

/-! ### Inserting an entry -/

def Backing.insert (b : Backing) (id : AggregateId) (absent : b.streams.get id = none) : Backing :=
  { b with streams := b.streams.insertNew id absent
           cells := Function.update b.cells b.streams.next {} }

theorem serveMemory_entryOrInsert (h : serveMemory c (.entryOrInsert id) b = some (s, b')) :
    b.streams.get id = some s ∧ b' = b ∨
      ∃ absent : b.streams.get id = none, s = b.streams.next ∧ b' = b.insert id absent := by
  simp only [serveMemory] at h
  split at h
  · next s' entry =>
      cases h
      exact .inl ⟨entry, rfl⟩
  · next absent =>
      cases h
      exact .inr ⟨absent, rfl, rfl⟩

@[simp] theorem Backing.insert_cells_next (absent : b.streams.get id = none) :
    (b.insert id absent).cells b.streams.next = {} := Function.update_self ..

theorem Backing.insert_cells_ne (absent : b.streams.get id = none) (ne : s ≠ b.streams.next) :
    (b.insert id absent).cells s = b.cells s := Function.update_of_ne ne ..

/-- The new stream was empty and unlocked all along. -/
theorem Mirrors.insert_cells (h : Mirrors m pending b) (absent : b.streams.get id = none) :
    (b.insert id absent).cells = b.cells := by
  have fresh : b.cells b.streams.next = {} := h.unallocated _ le_rfl
  rw [Backing.insert, ← fresh, Function.update_eq_self]

theorem Mirrors.insert (h : Mirrors m pending b) (absent : b.streams.get id = none) :
    Mirrors m pending (b.insert id absent) := by
  have cells := h.insert_cells absent
  refine ⟨h.generator, ?_, ?_, ?_, ?_⟩
  · intro id' s' entry
    rw [cells]
    by_cases same : id' = id
    · subst same
      rw [Backing.insert, StreamMap.get_insertNew_self] at entry
      cases entry
      have fresh : b.cells b.streams.next = {} := h.unallocated _ le_rfl
      have unlocked : (b.cells b.streams.next).writer = none := by rw [fresh]
      rw [h.absent id' absent, h.idle _ unlocked, fresh]
      rfl
    · rw [Backing.insert, StreamMap.get_insertNew_ne _ same] at entry
      exact h.present id' s' entry
  · intro id' missing
    by_cases same : id' = id
    · subst same
      exact h.absent id' absent
    · rw [Backing.insert, StreamMap.get_insertNew_ne _ same] at missing
      exact h.absent id' missing
  · intro s' unlocked
    rw [cells] at unlocked
    exact h.idle s' unlocked
  · intro s' beyond
    rw [cells]
    have later : b.streams.next + 1 ≤ s' := beyond
    exact h.unallocated s' ((Nat.le_succ _).trans later)

theorem Mirrors.insert_events (h : Mirrors m pending b) (absent : b.streams.get id = none)
    (other : AggregateId) : (b.insert id absent).events other = b.events other := by
  have cells := h.insert_cells absent
  by_cases same : other = id
  · subst same
    have entry : (b.insert other absent).streams.get other = some b.streams.next :=
      StreamMap.get_insertNew_self absent
    have fresh : b.cells b.streams.next = {} := h.unallocated _ le_rfl
    rw [Backing.events_of_get entry, Backing.events_of_absent absent, cells, fresh]
  · have entries : (b.insert id absent).streams.get other = b.streams.get other :=
      StreamMap.get_insertNew_ne absent same
    rw [Backing.events, Backing.events, entries, cells]

/-! ### Locking and unlocking -/

def Backing.setWriter (b : Backing) (s : Stream) (writer : Option Nat) : Backing :=
  b.setCell s { b.cells s with writer }

@[simp] theorem Backing.setCell_streams (cell : StreamCell) :
    (b.setCell s cell).streams = b.streams := rfl

@[simp] theorem Backing.setCell_generator (cell : StreamCell) :
    (b.setCell s cell).generator = b.generator := rfl

@[simp] theorem Backing.setCell_self (cell : StreamCell) : (b.setCell s cell).cells s = cell :=
  Function.update_self ..

theorem Backing.setCell_ne {other : Stream} (ne : other ≠ s) (cell : StreamCell) :
    (b.setCell s cell).cells other = b.cells other := Function.update_of_ne ne ..

@[simp] theorem Backing.setWriter_streams (writer : Option Nat) :
    (b.setWriter s writer).streams = b.streams := rfl

@[simp] theorem Backing.setWriter_events (writer : Option Nat) (other : Stream) :
    ((b.setWriter s writer).cells other).events = (b.cells other).events := by
  by_cases same : other = s
  · subst same
    rw [Backing.setWriter, Backing.setCell_self]
  · rw [Backing.setWriter, Backing.setCell_ne same]

theorem Backing.events_setWriter (writer : Option Nat) (other : AggregateId) :
    (b.setWriter s writer).events other = b.events other := by
  unfold Backing.events
  rw [Backing.setWriter_streams]
  cases b.streams.get other with
  | none => rfl
  | some s' => exact Backing.setWriter_events writer s'

/-- A lock changes hands while nothing of the stream is pending. -/
theorem Mirrors.setWriter (h : Mirrors m pending b) (entry : b.streams.get id = some s)
    (settled : pending s = []) (writer : Option Nat) :
    Mirrors m pending (b.setWriter s writer) := by
  refine ⟨h.generator, ?_, h.absent, ?_, ?_⟩
  · intro id' s' entry'
    rw [Backing.setWriter_events]
    exact h.present id' s' entry'
  · intro s' unlocked
    by_cases same : s' = s
    · rw [same, settled]
    · rw [Backing.setWriter, Backing.setCell_ne same] at unlocked
      exact h.idle s' unlocked
  · intro s' beyond
    have allocated : s < b.streams.next := b.streams.allocated entry
    have ne : s' ≠ s := by
      rintro rfl
      exact absurd allocated (Nat.not_lt.mpr beyond)
    rw [Backing.setWriter, Backing.setCell_ne ne]
    exact h.unallocated s' beyond

/-! ### Minting and appending -/

theorem Mirrors.refused (h : Mirrors m pending b) (g : Generator) :
    Mirrors { m with generator := g } pending { b with generator := g } :=
  ⟨rfl, h.present, h.absent, h.idle, h.unallocated⟩

/-- The object records the minted batch at once, the stream still lacks it. -/
theorem Mirrors.mint (h : Mirrors m pending b) (entry : b.streams.get id = some s)
    (locked : (b.cells s).writer ≠ none) (settled : pending s = []) (recorded : List RecordedEvent)
    (g : Generator) :
    Mirrors ⟨m.log ++ entries id recorded, g⟩ (Function.update pending s recorded)
      { b with generator := g } := by
  refine ⟨rfl, ?_, ?_, ?_, h.unallocated⟩
  · intro id' s' entry'
    have before := h.present id' s' entry'
    by_cases same : id' = id
    · subst same
      rw [entry] at entry'
      cases entry'
      rw [settled, List.append_nil] at before
      rw [EventLog.stream_append, before, stream_entries, Function.update_self]
    · have apart : s' ≠ s := by
        rintro rfl
        exact same (b.streams.distinct entry' entry)
      rw [EventLog.stream_append, before, stream_entries_ne same, List.append_nil,
        Function.update_of_ne apart]
  · intro id' missing
    have ne : id' ≠ id := by
      rintro rfl
      rw [entry] at missing
      cases missing
    rw [EventLog.stream_append, h.absent id' missing, stream_entries_ne ne]
    rfl
  · intro s' unlocked
    have ne : s' ≠ s := by
      rintro rfl
      exact locked unlocked
    rw [Function.update_of_ne ne]
    exact h.idle s' unlocked

def Backing.extend (b : Backing) (s : Stream) (events : List RecordedEvent) : Backing :=
  b.setCell s { b.cells s with events := (b.cells s).events ++ events }

@[simp] theorem Backing.extend_writer (events : List RecordedEvent) (other : Stream) :
    ((b.extend s events).cells other).writer = (b.cells other).writer := by
  by_cases same : other = s
  · subst same
    rw [Backing.extend, Backing.setCell_self]
  · rw [Backing.extend, Backing.setCell_ne same]

theorem Mirrors.extend (h : Mirrors m pending b) (entry : b.streams.get id = some s) :
    Mirrors m (Function.update pending s []) (b.extend s (pending s)) := by
  refine ⟨h.generator, ?_, h.absent, ?_, ?_⟩
  · intro id' s' entry'
    have before := h.present id' s' entry'
    by_cases same : s' = s
    · subst same
      rw [Backing.extend, Backing.setCell_self, Function.update_self, List.append_nil]
      exact before
    · rw [Backing.extend, Backing.setCell_ne same, Function.update_of_ne same]
      exact before
  · intro s' unlocked
    by_cases same : s' = s
    · subst same
      rw [Function.update_self]
    · rw [Function.update_of_ne same]
      rw [Backing.extend_writer] at unlocked
      exact h.idle s' unlocked
  · intro s' beyond
    have allocated : s < b.streams.next := b.streams.allocated entry
    have ne : s' ≠ s := by
      rintro rfl
      exact absurd allocated (Nat.not_lt.mpr beyond)
    rw [Backing.extend, Backing.setCell_ne ne]
    exact h.unallocated s' beyond

/-- The stream gains what was appended, the other streams keep theirs. -/
theorem Backing.Holds.extend {done : List Batch} (h : b.Holds done)
    (entry : b.streams.get id = some s) {batch : Batch} (target : batch.aggregateId = id) :
    (b.extend s batch.events).Holds (done ++ [batch]) := by
  intro other
  rw [streamOf_append, streamOf_singleton, ← h other, target]
  by_cases same : id = other
  · subst same
    have entry' : (b.extend s batch.events).streams.get id = some s := entry
    rw [Backing.events_of_get entry, Backing.events_of_get entry', if_pos rfl, Backing.extend,
      Backing.setCell_self]
  · rw [if_neg same, List.append_nil]
    cases entry' : b.streams.get other with
    | none =>
        have missing : (b.extend s batch.events).streams.get other = none := entry'
        rw [Backing.events_of_absent entry', Backing.events_of_absent missing]
    | some s' =>
        have kept : (b.extend s batch.events).streams.get other = some s' := entry'
        have apart : s' ≠ s := by
          rintro rfl
          exact same (b.streams.distinct entry entry')
        rw [Backing.events_of_get entry', Backing.events_of_get kept, Backing.extend,
          Backing.setCell_ne apart]

/-! ### What an operation can do -/

/-- All that one operation of call `c` can do to the map and the streams. -/
inductive Effect (c : Nat) (b : Backing) : (op : MemoryOp) → op.Res → Backing → Prop
  | quiet {op : MemoryOp} {r : op.Res} {b' : Backing} : b'.streams = b.streams →
      b'.cells = b.cells → (∀ s, op ≠ .writeLock s ∧ op ≠ .unlock s) → Effect c b op r b'
  | inserted {id : AggregateId} (absent : b.streams.get id = none) :
      Effect c b (.entryOrInsert id) b.streams.next (b.insert id absent)
  | locked {s : Stream} : (b.cells s).writer = none →
      Effect c b (.writeLock s) () (b.setWriter s (some c))
  | unlocked {s : Stream} : Effect c b (.unlock s) () (b.setWriter s none)
  | extended {s : Stream} {events : List RecordedEvent} :
      Effect c b (.extendEvents s events) () (b.extend s events)

theorem serveMemory_effect {op : MemoryOp} {r : op.Res} (step : serveMemory c op b = some (r, b')) :
    Effect c b op r b' := by
  cases op with
  | get id =>
      cases step
      exact .quiet rfl rfl (by simp)
  | entryOrInsert id =>
      rcases serveMemory_entryOrInsert step with ⟨_, rfl⟩ | ⟨absent, rfl, rfl⟩
      · exact .quiet rfl rfl (by simp)
      · exact .inserted absent
  | readEvents s =>
      simp only [serveMemory] at step
      split at step <;> cases step
      exact .quiet rfl rfl (by simp)
  | writeLock s =>
      simp only [serveMemory] at step
      split at step
      · cases step
      · next free =>
          cases step
          exact .locked (by simpa using free)
  | guardedEvents s =>
      cases step
      exact .quiet rfl rfl (by simp)
  | mintEventIds count =>
      cases step
      exact .quiet rfl rfl (by simp)
  | extendEvents s events =>
      cases step
      exact .extended
  | unlock s =>
      cases step
      exact .unlocked

end Operations

end WeeEvents.Memory
