import WeeEvents.Sqlite.Settlement
import WeeEvents.Sqlite.Runtime
import WeeEvents.Memory.Linearizability

/-!
# No lost update

Clients of one store that load, decide and publish, and clients that append
blindly, in any interleaving: over clones of one in-memory store, and over any
number of SQLite stores on one database.
-/
namespace WeeEvents
open Foundation

variable {Kind : Type} {domains : Kind → Domain} {encodings : Nat → Encoding}

section Memory

open Memory

/-- Clients on clones of one in-memory store, each clone with its encoding. -/
abbrev memoryClients (domains : Kind → Domain) (encodings : Nat → Encoding) : System :=
  { clients (clientRequest encodings) (mayCommand : _ → Nat × ClientCall domains → Prop) with
    program := fun call => (call.2.program (encodings call.1)).implement memoryStore.body }

theorem reachable_consistent_program {Call Result : Type} {behave : Call → Request Result}
    {mayInvoke : List (MemoryEvent Call Result) → Call → Prop}
    {program : Call → MemoryProgram Result} (same : program = fun call => memoryStore.serve (behave call))
    {gen : Generator} {p : Pool { clients behave mayInvoke with program := program }}
    (reach : Pool.Reachable (Backing.new gen) p) :
    ∃ g, Consistent behave ⟨[], gen⟩ g p.shared p.trace := by
  subst same
  exact reachable_consistent reach

theorem Memory.Consistent.history {Call Result : Type} {behave : Call → Request Result} {gen : Generator}
    {g : Ghost} {b : Backing} {trace : List (MemoryEvent Call Result)}
    (h : Consistent behave ⟨[], gen⟩ g b trace) :
    History behave trace (appendedBatches behave trace) where
  asked := h.asked
  once := h.once
  follows := h.follows
  complete c call r returned := by
    have explained := h.complete c call r returned
    cases request : behave call with
    | answered result =>
        rw [request] at explained
        exact explained
    | storeCall sc respond =>
        rw [request] at explained
        obtain ⟨result, -, settled, same⟩ := explained
        exact ⟨result, settled, same⟩

theorem Memory.Consistent.ordered {Call Result : Type} {behave : Call → Request Result} {gen : Generator}
    {g : Ghost} {b : Backing} {trace : List (MemoryEvent Call Result)}
    (h : Consistent behave ⟨[], gen⟩ g b trace) :
    EventLog.Ordered ((appendedBatches behave trace).flatMap Batch.entries) where
  increasing id := by
    rw [stream_flatMap_entries, ← h.holds id]
    exact h.increasing id
  nonzero entry member := by
    have inStream := EventLog.mem_stream.mpr member
    rw [stream_flatMap_entries, ← h.holds entry.1] at inStream
    have minted := (minted_new gen).after g.order
    exact minted.nonzero entry (EventLog.mem_stream.mp ((h.events_prefix entry.1).subset inStream))

end Memory

section Sqlite

open Sqlite

/-- Clients on SQLite stores that share one database, each store with its encoding. -/
abbrev sqliteClients {P : Type} [LinearOrder P] [UlidParser] (domains : Kind → Domain)
    (encodings : Nat → Encoding) (strategies : Nat → PartitionStrategy P)
    (catalogs : Nat → PartitionCatalog P Unit) : System :=
  clusterOf (Prod.fst : Nat × ClientCall domains → Nat)
    (fun call => (call.2.program (encodings call.1)).implement
      (sqliteStore (strategies call.1) (catalogs call.1)).body)
    mayCommand

end Sqlite

open Memory Sqlite in
/-- On either store no interleaving of the clients loses an update. -/
theorem no_lost_update (domains : Kind → Domain) (encodings : Nat → Encoding) :
    (∀ (gen : Generator) (p : Pool (memoryClients domains encodings)),
      Pool.Reachable (Backing.new gen) p →
      NoLostUpdate encodings p.trace (appendedBatches (clientRequest encodings) p.trace)
        fun id events => p.shared.events id = events) ∧
    ∀ (P : Type) [LinearOrder P] [UlidParser] (strategies : Nat → PartitionStrategy P)
      (catalogs : Nat → PartitionCatalog P Unit) (generators : Nat → Generator)
      (p : Pool (sqliteClients domains encodings strategies catalogs)),
      Pool.Reachable (Cluster.initial generators) p →
      NoLostUpdate encodings p.trace (committedBatches () p.trace) fun id events =>
        (p.shared.databases ()).events.rowsOf id = events.map (Row.store id) ∧
          loadFromConnection (p.shared.databases ()).events id =
            .ok (Aggregate.fromEvents id events) := by
  constructor
  · intro gen p reach
    obtain ⟨g, consistent⟩ := reachable_consistent_program
      (funext fun call : Nat × ClientCall domains =>
        ClientCall.implement_program memoryStore (encodings call.1) call.2) reach
    refine consistent.history.noLostUpdate (fun _ _ _ => reach.invoked_unique)
      (fun _ _ _ => reach.returned_invoked) ?_ consistent.ordered consistent.holds
    intro c i kind entity events invoked
    obtain ⟨before, earlier, may⟩ := reach.invoked_may invoked
    exact Rendered.mono may earlier
  · intro P _ _ strategies catalogs generators p reach
    have serves (call : Nat × ClientCall domains) :=
      ClientCall.implement_program (sqliteStore (strategies call.1) (catalogs call.1))
        (encodings call.1) call.2
    have accounted := reachable_accounted serves reach
    refine accounted.history.noLostUpdate (fun _ _ _ => reach.invoked_unique)
      (fun _ _ _ => reach.returned_invoked) ?_ accounted.logged.ordered ?_
    · intro c i kind entity events invoked
      obtain ⟨before, earlier, may⟩ := reach.invoked_may invoked
      exact Rendered.mono may earlier
    · intro id
      rw [← stream_committedLog]
      exact ⟨accounted.logged.rowsOf, accounted.logged.load⟩

/-! ### Two publishes of one loaded entity -/

section Stale

open Memory Sqlite

attribute [local instance] canonicalUlidParser

/-- Counts its events. -/
def tally : Domain where
  State := Nat
  Event := Unit
  RenderFailure := Empty
  inhabited := ⟨0⟩
  domainEvent := ⟨fun _ => ⟨"incremented"⟩, fun encoding _ => .ok ⟨encoding, []⟩⟩
  renderer := Renderer.new.register (.exact ⟨"incremented"⟩) fun count _ _ => .ok (count + 1)

def tallyDomains (_ : Unit) : Domain := tally

abbrev TallyCall : Type := Nat × ClientCall tallyDomains

def emptyTally : Entity Nat := ⟨counterId, Revision.zero, 0⟩

def loadTally : TallyCall := (0, .load counterId)

/-- Both publish from the same entity. -/
def publishTally (i : Nat) : TallyCall := (i, .publish () emptyTally [()])

theorem emptyTally_rendered {Op : Type} {Res : Op → Type}
    {trace : List (ClientEvent Op Res tallyDomains)}
    (loaded : .returned 0 loadTally (.loaded (.ok (Aggregate.empty counterId))) ∈ trace) :
    Rendered tallyDomains trace () emptyTally :=
  ⟨0, 0, counterId, Aggregate.empty counterId, loaded, rfl⟩

/-- Both publishes may begin once the tally was loaded. -/
theorem tallyCalls_may {Op : Type} {Res : Op → Type} {before : List (ClientEvent Op Res tallyDomains)}
    (loaded : .returned 0 loadTally (.loaded (.ok (Aggregate.empty counterId))) ∈ before) :
    ∀ trace, before <+: trace → ∀ call ∈ [publishTally 0, publishTally 1], mayCommand trace call := by
  intro trace further call member
  have rendered := (emptyTally_rendered loaded).mono further
  simp only [List.mem_cons, List.not_mem_nil, or_false] at member
  rcases member with rfl | rfl
  · exact rendered
  · exact rendered

abbrev tallyMemory : System := memoryClients tallyDomains fun _ => .json

abbrev tallySqlite : System := sqliteClients tallyDomains (fun _ => .json)
  (fun _ => (globalStrategy (D := Unit)).toPartitionStrategy) fun _ => singleTargetCatalog (D := Unit)

def staleMemoryRun : Option (List ClientResult × Backing) :=
  Pool.runInOrder (S := tallyMemory) (fun c _ op b => serveMemory c op b) 1
    [publishTally 0, publishTally 1] (Backing.new (.countingFrom 0))

def staleSqliteRun : Option (List ClientResult × Cluster Unit Unit) :=
  Pool.runInOrder (S := tallySqlite) (answeredBy Prod.fst { database := () }) 1
    [publishTally 0, publishTally 1] (Cluster.initial skewedGenerators)

/-- Of two publishes from one loaded entity the second appends nothing. -/
theorem one_of_two_published :
    (∃ p : Pool tallyMemory, Pool.Reachable (Backing.new (.countingFrom 0)) p ∧
      (p.shared.events counterId).length = 1 ∧
      NoLostUpdate (fun _ => .json) p.trace (appendedBatches (clientRequest fun _ => .json) p.trace)
        fun id events => p.shared.events id = events) ∧
    ∃ p : Pool tallySqlite, Pool.Reachable (Cluster.initial skewedGenerators) p ∧
      ((p.shared.databases ()).events.rowsOf counterId).length = 1 ∧
      NoLostUpdate (fun _ => .json) p.trace (committedBatches () p.trace) fun id events =>
        (p.shared.databases ()).events.rowsOf id = events.map (Row.store id) ∧
          loadFromConnection (p.shared.databases ()).events id =
            .ok (Aggregate.fromEvents id events) := by
  have only : ∀ {S : System}, Pool.OnlyOperations (S := S) fun _ _ => True :=
    fun _ _ _ => ⟨trivial, fun _ => trivial⟩
  constructor
  · have one : (staleMemoryRun.map fun run => (run.2.events counterId).length) = some 1 := by
      decide +kernel
    obtain ⟨⟨results, b'⟩, run, length⟩ := Option.map_eq_some_iff.mp one
    have begin : Pool.ReachableBy (S := tallyMemory) (fun _ _ => True)
        (Backing.new (.countingFrom 0)) (Pool.initial _) := .start
    have may : tallyMemory.mayInvoke [] loadTally := trivial
    have loads : Program.eval (fun op b => serveMemory 0 op b) (tallyMemory.program loadTally)
        (Backing.new (.countingFrom 0)) = some (.loaded (.ok (Aggregate.empty counterId)),
          Backing.new (.countingFrom 0)) := rfl
    obtain ⟨p, reach, same, _, _, loaded, others⟩ := begin.solo only
      (fun event member => by cases member) may
      ((Program.runs_iff_eval.mpr loads).mono fun _ _ _ _ served => ⟨served, trivial⟩)
    rw [staleMemoryRun, ← same] at run
    obtain ⟨q, reached, rfl, -⟩ := reach.runInOrder only
      (fun c call b op r b' served => ⟨served, trivial⟩) (tallyCalls_may loaded)
      (fun c le => others c (by omega) fun event member => by cases member) run
    exact ⟨q, reached, length, (no_lost_update tallyDomains fun _ => .json).1 _ q reached⟩
  · have one : (staleSqliteRun.map fun run => ((run.2.databases ()).events.rowsOf counterId).length) =
        some 1 := by decide +kernel
    obtain ⟨⟨results, w'⟩, run, length⟩ := Option.map_eq_some_iff.mp one
    have begin : Pool.ReachableBy (S := tallySqlite) (fun _ _ => True)
        (Cluster.initial skewedGenerators) (Pool.initial _) := .start
    have may : tallySqlite.mayInvoke [] loadTally := trivial
    have answers : ∀ c call w op r w', answeredBy Prod.fst { database := () } c call op w = some (r, w') →
        Pool.PermittedStep (S := tallySqlite) (fun _ _ => True) c call w op r w' :=
      fun c call w op r w' served => ⟨⟨_, served⟩, trivial⟩
    have loads : Program.eval (fun op w => answeredBy Prod.fst { database := () } 0 loadTally op w)
        (tallySqlite.program loadTally) (Cluster.initial skewedGenerators) =
          some (.loaded (.ok (Aggregate.empty counterId)), Cluster.initial skewedGenerators) := rfl
    obtain ⟨p, reach, same, _, _, loaded, others⟩ := begin.solo only
      (fun event member => by cases member) may
      ((Program.runs_iff_eval.mpr loads).mono fun _ _ _ _ served => answers _ _ _ _ _ _ served)
    rw [staleSqliteRun, ← same] at run
    obtain ⟨q, reached, rfl, -⟩ := reach.runInOrder only answers (tallyCalls_may loaded)
      (fun c le => others c (by omega) fun event member => by cases member) run
    exact ⟨q, reached, length,
      (no_lost_update tallyDomains fun _ => .json).2 Unit _ _ skewedGenerators q reached⟩

end Stale
end WeeEvents
