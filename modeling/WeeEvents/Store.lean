import WeeEvents.EventLog
import WeeEvents.Foundation.Program

/-!
# The event store trait

What a client sees of a store: programs for `load` and `publish` over the
operations of the implementation, and the encoding of new events.
-/
namespace WeeEvents
open Foundation

inductive EventStoreCall where
  | load (id : AggregateId)
  | publish (id : AggregateId) (options : PublishOptions) (events : List RawEvent)

namespace EventStoreCall

def target : EventStoreCall → AggregateId
  | load id => id
  | publish id _ _ => id

/-- A call that appends nothing: a load, or a publish of no events. -/
def readsOnly : EventStoreCall → Bool
  | load _ => true
  | publish _ _ events => events.isEmpty

end EventStoreCall

inductive EventStoreResult where
  | loaded (r : Except Error Aggregate)
  | published (r : Except Error ChangeSet)

structure EventStore (Op : Type) (Res : Op → Type) where
  load : AggregateId → Program Op Res (Except Error Aggregate)
  publish : AggregateId → PublishOptions → List RawEvent → Program Op Res (Except Error ChangeSet)

/-- What a client does: answer without the store, or make one call and answer from its result. -/
inductive Request (Result : Type) where
  | answered (result : Result)
  | storeCall (call : EventStoreCall) (respond : EventStoreResult → Result)

/-- The store call of a request, if it makes one. -/
def Request.call? {Result : Type} : Request Result → Option EventStoreCall
  | .answered _ => none
  | .storeCall call _ => some call

/-- The batch a successful call commits. -/
def EventStoreCall.batch? (c : Nat) (recorded : List RecordedEvent) :
    EventStoreCall → Option Batch
  | .load _ => none
  | .publish id options raws => some ⟨c, id, options, raws, recorded⟩

/-- What the result of call `c` says about the batches committed so far: a load
saw those of an earlier moment, a non-empty publish succeeded with its own batch,
and every other call committed none. -/
inductive Settled (c : Nat) (done : List Batch) : EventStoreCall → EventStoreResult → Prop
  | loaded {id : AggregateId} {seen : List Batch} : seen <+: done → c ∉ done.map Batch.call →
      Settled c done (.load id) (.loaded (.ok (Aggregate.fromEvents id (streamOf seen id))))
  | loadFailed {id : AggregateId} {e : Error} : c ∉ done.map Batch.call →
      Settled c done (.load id) (.loaded (.error e))
  | appended {id : AggregateId} {options : PublishOptions} {raws : List RawEvent}
      {events : List RecordedEvent} : raws ≠ [] → ⟨c, id, options, raws, events⟩ ∈ done →
      Settled c done (.publish id options raws) (.published (.ok ⟨id, lastRevision events, events⟩))
  | nothing {id : AggregateId} {options : PublishOptions} {revision : Revision} :
      c ∉ done.map Batch.call →
      Settled c done (.publish id options []) (.published (.ok ⟨id, revision, []⟩))
  | publishFailed {id : AggregateId} {options : PublishOptions} {raws : List RawEvent} {e : Error} :
      c ∉ done.map Batch.call → Settled c done (.publish id options raws) (.published (.error e))

/-- Batches of other calls leave a settled result as it was. -/
theorem Settled.append {c : Nat} {done more : List Batch} {call : EventStoreCall}
    {result : EventStoreResult} (h : Settled c done call result) (other : c ∉ more.map Batch.call) :
    Settled c (done ++ more) call result := by
  have none_of : c ∉ done.map Batch.call → c ∉ (done ++ more).map Batch.call := by
    intro absent member
    rw [List.map_append] at member
    rcases List.mem_append.mp member with old | new
    · exact absent old
    · exact other new
  cases h with
  | loaded seen absent => exact .loaded (seen.trans (List.prefix_append _ _)) (none_of absent)
  | loadFailed absent => exact .loadFailed (none_of absent)
  | appended nonempty member => exact .appended nonempty (List.mem_append_left _ member)
  | nothing absent => exact .nothing (none_of absent)
  | publishFailed absent => exact .publishFailed (none_of absent)

variable {Op : Type} {Res : Op → Type} {Result : Type}

def EventStore.call (store : EventStore Op Res) : EventStoreCall → Program Op Res EventStoreResult
  | .load id => (store.load id).bind fun r => .ret (.loaded r)
  | .publish id options events => (store.publish id options events).bind fun r => .ret (.published r)

def EventStore.serve (store : EventStore Op Res) : Request Result → Program Op Res Result
  | .answered result => .ret result
  | .storeCall call respond => (store.call call).bind fun r => .ret (respond r)

end WeeEvents
