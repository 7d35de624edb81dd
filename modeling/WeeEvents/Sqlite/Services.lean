import WeeEvents.Serializability
import WeeEvents.Sqlite.Instances
import WeeEvents.FailedCommand

/-!
# Services on one local root

The generated services call `load` and `execute` on store instances that share a
root directory. Each operation of the store is carried out in steps on files,
connections and retries, and each is a whole one where its effect is: commands take
effect one at a time.
-/
namespace WeeEvents
open Foundation

/-- The result of a call of the trait, as a result of the store. -/
def EventStoreCall.result : (call : EventStoreCall) → call.Res → EventStoreResult
  | .load _, r => .loaded r
  | .publish _ _ _, r => .published r

theorem EventStoreCall.result_inj {call : EventStoreCall} {r r' : call.Res}
    (same : call.result r = call.result r') : r = r' := by
  cases call with
  | load id => exact EventStoreResult.loaded.inj same
  | publish id options raws => exact EventStoreResult.published.inj same

end WeeEvents

namespace WeeEvents.Sqlite
open Foundation

variable {P : Type}

/-! ### Operations of a service as calls of an instance -/

/-- The effect that an operation of a service returns. -/
def Means : (op : ServiceOp) → EventStoreResult → op.Res → Prop
  | .openStore, _, _ => False
  | .store call, e, r => e = call.result r

theorem Means.unique {op : ServiceOp} {e : EventStoreResult} {r r' : op.Res} (h : Means op e r)
    (h' : Means op e r') : r = r' := by
  cases op with
  | openStore => cases h
  | store call => exact EventStoreCall.result_inj (h.symm.trans h')

section Body

variable [Base32Nopad] [DecidableEq P] [UlidParser] (strategy : LocalPartitionStrategy P LocalPath)

/-- The program of an instance for an operation of a service. -/
def serviceBody : (op : ServiceOp) → Program (StoreOp P LocalPath) StoreOp.Res op.Res
  | .openStore => Sqlite.bootstrap (localPartitionCatalog strategy) strategy.toPartitionStrategy
  | .store call => (sqliteStore strategy.toPartitionStrategy (localPartitionCatalog strategy)).body call

variable {strategy} {router : Router strategy} {first : AggregateId}

end Body

/-! ### The implementation -/

section Implementation

variable [Base32Nopad] [DecidableEq P] [UlidParser] {strategy : LocalPartitionStrategy P LocalPath}

end Implementation

/-! ### Services under the shipped strategies -/

section Services

variable [Base32Nopad] [DecidableEq P] [UlidParser] {S E C R EL EH : Type} [Inhabited S] [DomainEvent E]

/-- Any number of services on one local root, each on an instance of its own. -/
abbrev localServices (service : CommandService S E C R EL EH) (strategy : LocalPartitionStrategy P LocalPath) :
    System :=
  operationsInSteps (fun call : Nat × ServiceCall C => service.program call.2) (fun _ => serviceBody strategy)
    fun _ call => SharedDiskStep call.1

end Services

section Example

attribute [local instance] canonicalUlidParser canonicalBase32

/-- A counter, with a command that increments it. -/
def counterService : CommandService Nat CounterEvent Unit DecodeError Error (ServiceError Error) where
  renderer := Renderer.new.register (.exact ⟨"incremented"⟩) fun count _ _ => .ok (count + 1)
  encoding := .json
  decide _ _ := .publish [.incremented]
  ofStore e := e
  ofRender := RenderError.into .decode
  ofPublish e := e
  lift := .store
  evolve count _ := count + 1
  renders id count e event _ ofType := by
    rw [Renderer.apply, ofType]
    rfl

abbrev counters : System := localServices counterService (aggregateStrategy (D := LocalPath))

/-- What the commands return of the counter, if they do not conflict. -/
def counted : counters.Happening → Option (Nat × Option Nat)
  | .returned c _ (.executed (.ok entity)) => some (c, some entity.state)
  | .returned c _ (.executed (.error (.store (.revisionConflict _ _)))) => some (c, none)
  | _ => none

end Example
end WeeEvents.Sqlite
