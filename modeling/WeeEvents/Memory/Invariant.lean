import WeeEvents.Memory.Mirror

/-!
# The invariant of the in-memory store

Every request takes effect at one of its operations: a read, the operation that
decides a conflict, or the mint. The ghost keeps the order of these effects and
what was minted but not yet appended.
-/
namespace WeeEvents.Memory
open Foundation

section Clients

variable {Call Result : Type}

abbrev MemoryEvent (Call Result : Type) : Type := Event MemoryOp MemoryOp.Res Call Result

/-- Clients whose requests run against clones of one store. -/
abbrev clients (behave : Call → Request Result)
    (mayInvoke : List (MemoryEvent Call Result) → Call → Prop) : System where
  Op := MemoryOp
  Res := MemoryOp.Res
  Shared := Backing
  Call := Call
  Result := Result
  program call := memoryStore.serve (behave call)
  step c _ b op r b' := serveMemory c op b = some (r, b')
  mayInvoke := mayInvoke

/-- The batch that one event appends. -/
def appendedBatch (behave : Call → Request Result) : MemoryEvent Call Result → Option Batch
  | .performed c call (.extendEvents _ recorded) _ => (behave call).call?.bind (·.batch? c recorded)
  | _ => none

/-- The batches appended to the store, in order. -/
def appendedBatches (behave : Call → Request Result) (trace : List (MemoryEvent Call Result)) :
    List Batch :=
  trace.filterMap (appendedBatch behave)

theorem appendedBatches_concat (behave : Call → Request Result)
    (trace : List (MemoryEvent Call Result)) (event : MemoryEvent Call Result) :
    appendedBatches behave (trace ++ [event]) =
      appendedBatches behave trace ++ (appendedBatch behave event).toList := by
  cases h : appendedBatch behave event <;> simp [appendedBatches, h]

end Clients

structure Ghost where
  order : List (Completed EventStoreCall EventStoreResult)
  pending : Pending

section Knowledge

variable {c c' : Nat} {call : EventStoreCall} {g g' : Ghost} {b b' : Backing}
  {done done' : List Batch}

/-- The call has taken no effect so far. -/
def Untouched (c : Nat) (g : Ghost) (done : List Batch) : Prop :=
  c ∉ g.order.map Completed.caller ∧ c ∉ done.map Batch.call

/-- The call writes to its stream, holds the lock, and has this much left to append. -/
structure Writing (c : Nat) (call : EventStoreCall) (g : Ghost) (b : Backing) (s : Stream)
    (left : List RecordedEvent) : Prop where
  entry : b.streams.get call.target = some s
  lock : (b.cells s).writer = some c
  pending : g.pending s = left

/-- What is true while a call stands in a phase. -/
def Phase.Known (c : Nat) (call : EventStoreCall) (g : Ghost) (b : Backing) (done : List Batch) :
    Phase → Prop
  | .start => Untouched c g done
  | .absent => Untouched c g done ∧ call.readsOnly = false ∧
      ∀ id options raws, call = .publish id options raws → met options []
  | .found s => Untouched c g done ∧ b.streams.get call.target = some s
  | .locked s => Untouched c g done ∧ Writing c call g b s [] ∧ call.readsOnly = false
  | .checked s events => Untouched c g done ∧ Writing c call g b s [] ∧ call.readsOnly = false ∧
      (b.cells s).events = events ∧
      ∀ id options raws, call = .publish id options raws → met options events
  | .minted s events recorded => c ∉ done.map Batch.call ∧ Writing c call g b s recorded ∧
      call.readsOnly = false ∧ (b.cells s).events = events ∧
      ⟨c, call, .published (.ok ⟨call.target, lastRevision recorded, recorded⟩)⟩ ∈ g.order ∧
      ∀ id options raws, call = .publish id options raws → met options events ∧
        List.Forall₂ (fun event raw => event.Carries options.metadata raw) recorded raws
  | .leaving s result => Writing c call g b s [] ∧ call.readsOnly = false ∧
      ⟨c, call, result⟩ ∈ g.order ∧ Settled c done call result
  | .answered result => ⟨c, call, result⟩ ∈ g.order ∧ Settled c done call result

/-- What a step of call `c` leaves alone: the effects and batches of the others,
the entries of the map, and every stream that another call has locked. -/
structure Undisturbed (c : Nat) (g : Ghost) (b : Backing) (done : List Batch) (g' : Ghost)
    (b' : Backing) (done' : List Batch) : Prop where
  order : ∃ more, g'.order = g.order ++ more ∧ ∀ entry ∈ more, entry.caller = c
  done : ∃ more, done' = done ++ more ∧ ∀ batch ∈ more, batch.call = c
  entries : ∀ id s, b.streams.get id = some s → b'.streams.get id = some s
  cells : ∀ s c', c' ≠ c → (b.cells s).writer = some c' →
    b'.cells s = b.cells s ∧ g'.pending s = g.pending s

namespace Undisturbed

theorem mem_order (h : Undisturbed c g b done g' b' done')
    {entry : Completed EventStoreCall EventStoreResult} (member : entry ∈ g.order) :
    entry ∈ g'.order := by
  obtain ⟨more, grown, _⟩ := h.order
  rw [grown]
  exact List.mem_append_left _ member

theorem settled (h : Undisturbed c g b done g' b' done') (ne : c' ≠ c) {result : EventStoreResult}
    (settled : Settled c' done call result) : Settled c' done' call result := by
  obtain ⟨more, rfl, own⟩ := h.done
  refine settled.append ?_
  intro member
  obtain ⟨batch, inside, same⟩ := List.mem_map.mp member
  exact ne (same.symm.trans (own batch inside))

theorem no_batch (h : Undisturbed c g b done g' b' done') (ne : c' ≠ c)
    (absent : c' ∉ done.map Batch.call) : c' ∉ done'.map Batch.call := by
  obtain ⟨more, rfl, own⟩ := h.done
  intro member
  rw [List.map_append] at member
  rcases List.mem_append.mp member with old | new
  · exact absent old
  · obtain ⟨batch, inside, same⟩ := List.mem_map.mp new
    exact ne (same.symm.trans (own batch inside))

theorem untouched (h : Undisturbed c g b done g' b' done') (ne : c' ≠ c)
    (untouched : Untouched c' g done) : Untouched c' g' done' := by
  refine ⟨?_, h.no_batch ne untouched.2⟩
  obtain ⟨more, grown, own⟩ := h.order
  intro member
  rw [grown, List.map_append] at member
  rcases List.mem_append.mp member with old | new
  · exact untouched.1 old
  · obtain ⟨entry, inside, same⟩ := List.mem_map.mp new
    exact ne (same.symm.trans (own entry inside))

theorem writing (h : Undisturbed c g b done g' b' done') (ne : c' ≠ c) {s : Stream}
    {left : List RecordedEvent} (writing : Writing c' call g b s left) :
    Writing c' call g' b' s left := by
  obtain ⟨cell, pending⟩ := h.cells s c' ne writing.lock
  refine ⟨h.entries _ _ writing.entry, ?_, ?_⟩
  · rw [cell]
    exact writing.lock
  · rw [pending]
    exact writing.pending

theorem events (h : Undisturbed c g b done g' b' done') (ne : c' ≠ c) {s : Stream}
    {left : List RecordedEvent} (writing : Writing c' call g b s left) :
    (b'.cells s).events = (b.cells s).events := by
  rw [(h.cells s c' ne writing.lock).1]

/-- What another call knew stays true. -/
theorem known (h : Undisturbed c g b done g' b' done') (ne : c' ≠ c) {phase : Phase}
    (known : phase.Known c' call g b done) : phase.Known c' call g' b' done' := by
  cases phase with
  | start => exact h.untouched ne known
  | absent => exact ⟨h.untouched ne known.1, known.2⟩
  | found s => exact ⟨h.untouched ne known.1, h.entries _ _ known.2⟩
  | locked s =>
      obtain ⟨untouched, writing, appends⟩ := known
      exact ⟨h.untouched ne untouched, h.writing ne writing, appends⟩
  | checked s events =>
      obtain ⟨untouched, writing, appends, held, met⟩ := known
      have same := h.events ne writing
      exact ⟨h.untouched ne untouched, h.writing ne writing, appends, same.trans held, met⟩
  | minted s events recorded =>
      obtain ⟨absent, writing, appends, held, effect, carries⟩ := known
      have same := h.events ne writing
      exact ⟨h.no_batch ne absent, h.writing ne writing, appends, same.trans held,
        h.mem_order effect, carries⟩
  | leaving s result =>
      obtain ⟨writing, appends, effect, settled⟩ := known
      exact ⟨h.writing ne writing, appends, h.mem_order effect, h.settled ne settled⟩
  | answered result =>
      obtain ⟨effect, settled⟩ := known
      exact ⟨h.mem_order effect, h.settled ne settled⟩

end Undisturbed
end Knowledge

section Consistent

variable {Call Result : Type} {behave : Call → Request Result}
  {mayInvoke : List (MemoryEvent Call Result) → Call → Prop} {m₀ : MemoryModel}
  {trace : List (MemoryEvent Call Result)} {g g' : Ghost} {b b' : Backing} {c : Nat} {call : Call}

/-- The result of a request is explained by the effect of its store call. -/
def Explained (g : Ghost) (done : List Batch) (c : Nat) : Request Result → Result → Prop
  | .answered result, r => r = result
  | .storeCall call respond, r => ∃ result, ⟨c, call, result⟩ ∈ g.order ∧
      Settled c done call result ∧ r = respond result

structure Consistent (behave : Call → Request Result) (m₀ : MemoryModel) (g : Ghost) (b : Backing)
    (trace : List (MemoryEvent Call Result)) : Prop where
  linear : Linearization memoryObject m₀ trace g.order
  own : ∀ entry ∈ g.order, ∃ call, .invoked entry.caller call ∈ trace ∧
    (behave call).call? = some entry.call
  asked : ∀ batch ∈ appendedBatches behave trace, ∃ call, .invoked batch.call call ∈ trace ∧
    (behave call).call? = some (.publish batch.aggregateId batch.options batch.raws)
  mirrors : Mirrors (memoryObject.after m₀ g.order) g.pending b
  holds : b.Holds (appendedBatches behave trace)
  follows : ∀ earlier batch later, appendedBatches behave trace = earlier ++ batch :: later →
    batch.Follows earlier
  once : ((appendedBatches behave trace).map Batch.call).Nodup
  complete : ∀ c call r, .returned c call r ∈ trace →
    Explained g (appendedBatches behave trace) c (behave call) r

theorem Consistent.initial (behave : Call → Request Result) (gen : Generator) :
    Consistent behave ⟨[], gen⟩ ⟨[], fun _ => []⟩ (Backing.new gen) [] where
  linear := .nil
  own entry member := by cases member
  asked batch member := by cases member
  mirrors := .new gen
  holds id := Backing.events_of_absent (StreamMap.get_empty id)
  follows earlier batch later split := by simp [appendedBatches] at split
  once := List.nodup_nil
  complete c call r member := by cases member

/-- The object's stream of an entry whose stream lacks nothing. -/
theorem Mirrors.stream_eq {m : MemoryModel} {pending : Pending} (h : Mirrors m pending b)
    {id : AggregateId} (settled : ∀ s, b.streams.get id = some s → pending s = []) :
    m.log.stream id = b.events id := by
  cases entry : b.streams.get id with
  | none => rw [h.absent id entry, Backing.events_of_absent entry]
  | some s =>
      rw [h.present id s entry, settled s entry, List.append_nil, Backing.events_of_get entry]

/-- An event that appends nothing and returns nothing. -/
def Silent (behave : Call → Request Result) (event : MemoryEvent Call Result) : Prop :=
  appendedBatch behave event = none

theorem Silent.batches {event : MemoryEvent Call Result} (silent : Silent behave event) :
    appendedBatches behave (trace ++ [event]) = appendedBatches behave trace := by
  rw [appendedBatches_concat, silent]
  exact List.append_nil _

/-- What the returned calls were told stays explained by a step of an open call. -/
theorem Consistent.keep_complete (h : Consistent behave m₀ g b trace) {done' : List Batch}
    (still : Undisturbed c g b (appendedBatches behave trace) g' b' done')
    (unreturned : ∀ call r, .returned c call r ∉ trace) {c' : Nat} {call' : Call} {r : Result}
    (returned : .returned c' call' r ∈ trace) : Explained g' done' c' (behave call') r := by
  have ne : c' ≠ c := by
    rintro rfl
    exact unreturned call' r returned
  have before := h.complete c' call' r returned
  cases request : behave call' with
  | answered result =>
      rw [request] at before
      exact before
  | storeCall sc respond =>
      rw [request] at before
      obtain ⟨result, effect, settled, answer⟩ := before
      exact ⟨result, still.mem_order effect, still.settled ne settled, answer⟩

/-- A step that appends no batch. -/
theorem Consistent.perform (h : Consistent behave m₀ g b trace)
    (began : Pool.Open (S := clients behave mayInvoke) c call trace) {op : MemoryOp} {r : op.Res}
    (silent : Silent behave (.performed c call op r))
    (still : Undisturbed c g b (appendedBatches behave trace) g' b' (appendedBatches behave trace))
    (linear : Linearization memoryObject m₀ trace g'.order)
    (own : ∀ entry ∈ g'.order, entry ∉ g.order → entry.caller = c ∧
      (behave call).call? = some entry.call)
    (mirrors : Mirrors (memoryObject.after m₀ g'.order) g'.pending b')
    (events : ∀ id, b'.events id = b.events id) :
    Consistent behave m₀ g' b' (trace ++ [.performed c call op r]) := by
  have batches : appendedBatches behave (trace ++ [.performed c call op r]) =
      appendedBatches behave trace := silent.batches
  refine ⟨linear.extend (by intro entry _ call' same; cases same), ?_, ?_, mirrors, ?_, ?_, ?_, ?_⟩
  · intro entry member
    by_cases old : entry ∈ g.order
    · obtain ⟨call', invoked, asks⟩ := h.own entry old
      exact ⟨call', List.mem_append_left _ invoked, asks⟩
    · obtain ⟨mine, asks⟩ := own entry member old
      rw [mine]
      exact ⟨call, List.mem_append_left _ began.1, asks⟩
  · intro batch member
    rw [batches] at member
    obtain ⟨call', invoked, asks⟩ := h.asked batch member
    exact ⟨call', List.mem_append_left _ invoked, asks⟩
  · intro id
    rw [batches, events id]
    exact h.holds id
  · intro earlier batch later split
    rw [batches] at split
    exact h.follows earlier batch later split
  · rw [batches]
    exact h.once
  · intro c' call' r' returned
    rw [batches]
    have earlier : .returned c' call' r' ∈ trace := by simpa using returned
    exact h.keep_complete still began.2 earlier

end Consistent
end WeeEvents.Memory
