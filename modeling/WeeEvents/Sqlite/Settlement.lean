import WeeEvents.Commands
import WeeEvents.Sqlite.Attempts
import WeeEvents.Sqlite.StreamOrder

/-!
# What the calls on one database return

Any calls on any store instances that share one database. The batches its
transactions commit account for every result: what a load returned was the
stream at some moment, and a publish that returned a change set committed it.
-/
namespace WeeEvents.Sqlite
open Foundation

variable {P D : Type}

/-! ### What one call knows -/

section Call

/-- A load reads its own aggregate and attempts nothing. -/
def loadMay (id : AggregateId) : StoreOp P D → Prop
  | .tryPublishOnce _ _ _ _ => False
  | .loadFromConnection _ id' => id' = id
  | _ => True

/-- The discipline of one store call, if a request makes one. -/
def callDiscipline : Option EventStoreCall → Discipline (StoreOp P D) StoreOp.Res PublishKnowledge
  | some (.load id) => ⟨fun _ op => loadMay id op, PublishKnowledge.learn⟩
  | some (.publish id options raws) => publishDiscipline id options raws
  | none => ⟨fun _ _ => False, PublishKnowledge.learn⟩

theorem learn_call (k : Option EventStoreCall × PublishKnowledge) (op : StoreOp P D) (r : op.Res) :
    (Discipline.tagged callDiscipline).learn k op r = (k.1, k.2.learn op r) := by
  obtain ⟨call, k⟩ := k
  rcases call with _ | (id | ⟨id, options, raws⟩) <;> rfl

/-- What a store call answers from what it has seen. -/
def callDone (k : PublishKnowledge) : EventStoreCall → EventStoreResult → Prop
  | .load id, r => ∃ inner, r = .loaded inner ∧ ∀ aggregate, inner = .ok aggregate →
      k.loaded = some aggregate ∨ aggregate = Aggregate.empty id
  | .publish id options raws, r => ∃ inner, r = .published (inner.mapError SqliteError.into) ∧
      publishDone id options raws k inner

variable {id : AggregateId} {k : PublishKnowledge}

theorem reads_fromCatalog {α : Type} (p : CatalogProgram D α) :
    (callDiscipline (P := P) (some (.load id))).Obeys (fun _ _ => True) (fromCatalog p) k :=
  (Discipline.allowed_lift (fun _ _ => trivial) p).bind fun _ _ _ => trivial

theorem reads_openPartitionIfExists (catalog : PartitionCatalog P D) (partition : P) :
    (callDiscipline (some (.load id))).Obeys (fun _ _ => True)
      (openPartitionIfExists catalog partition) k := by
  refine ⟨trivial, fun cached => ?_⟩
  cases cached with
  | some conn => exact trivial
  | none =>
      refine (reads_fromCatalog _).andThen (fun k target _ => ?_) fun _ _ _ => trivial
      cases target with
      | none => exact trivial
      | some target =>
          have opened : (callDiscipline (some (.load id))).Obeys (fun _ _ => True)
              (openAndCache catalog partition target) k := by
            refine (reads_fromCatalog _).andThen (fun k conn _ => ?_) fun _ _ _ => trivial
            refine (reads_fromCatalog _).andThen (fun k _ _ => ?_) fun _ _ _ => trivial
            exact ⟨trivial, fun _ => trivial⟩
          exact opened.andThen (fun _ _ _ => trivial) fun _ _ _ => trivial

theorem reads_loadAggregate (strategy : PartitionStrategy P) (catalog : PartitionCatalog P D) :
    (callDiscipline (some (.load id))).Obeys
      (fun k r => ∀ aggregate, r = .ok aggregate →
        k.loaded = some aggregate ∨ aggregate = Aggregate.empty id)
      (loadAggregate strategy catalog id) k := by
  rw [loadAggregate, partitionFor]
  cases strategy.partitionForAggregate id with
  | error b =>
      intro aggregate failed
      cases failed
  | ok partition =>
      refine (reads_openPartitionIfExists catalog partition).andThen (fun k conn _ => ?_)
        fun k e _ aggregate failed => by cases failed
      cases conn with
      | none =>
          intro aggregate empty
          exact .inr (Except.ok.inj empty).symm
      | some conn =>
          refine ⟨rfl, fun r => ?_⟩
          intro aggregate returned
          subst returned
          exact .inl rfl

/-- The trait methods of the store. -/
def sqliteStore [UlidParser] (strategy : PartitionStrategy P) (catalog : PartitionCatalog P D) :
    EventStore (StoreOp P D) StoreOp.Res :=
  ⟨load strategy catalog, publish strategy catalog⟩

theorem obeys_call [UlidParser] (strategy : PartitionStrategy P) (catalog : PartitionCatalog P D)
    (call : EventStoreCall) :
    (callDiscipline (some call)).Obeys (fun k r => callDone k call r)
      ((sqliteStore strategy catalog).call call) {} := by
  cases call with
  | load id =>
      have loads : (callDiscipline (some (.load id))).Obeys
          (fun k r => ∀ aggregate, r = .ok aggregate →
            k.loaded = some aggregate ∨ aggregate = Aggregate.empty id)
          (Sqlite.load strategy catalog id) {} := by
        refine (reads_loadAggregate strategy catalog).bind fun k r known aggregate same => ?_
        cases r with
        | error e => cases same
        | ok loaded =>
            cases same
            exact known aggregate rfl
      exact loads.bind fun k r known => ⟨r, rfl, known⟩
  | publish id options raws =>
      refine (obeys_publish strategy catalog rfl).bind fun k r known => ?_
      obtain ⟨inner, done, rfl⟩ := known
      exact ⟨inner, rfl, done⟩

/-- The result of a request says what its store call answered. -/
def requestDone {Result : Type} (k : PublishKnowledge) : Request Result → Result → Prop
  | .answered result, r => r = result
  | .storeCall call respond, r => ∃ result, callDone k call result ∧ r = respond result

theorem obeys_request [UlidParser] {Result : Type} (strategy : PartitionStrategy P)
    (catalog : PartitionCatalog P D) (request : Request Result) :
    (Discipline.tagged callDiscipline).Obeys (fun k r => requestDone k.2 request r)
      ((sqliteStore strategy catalog).serve request) (request.call?, {}) := by
  cases request with
  | answered result => rfl
  | storeCall call respond =>
      refine (obeys_call strategy catalog call).tagged.bind fun k result known => ?_
      exact ⟨result, known.2, rfl⟩

end Call

/-! ### What it knows of the batches -/

section Known

variable {c : Nat} {call : EventStoreCall} {k : PublishKnowledge} {done more : List Batch}

/-- The batches of a call are what its attempts committed, and what it loaded was
the stream of an earlier moment. -/
structure Attempted (c : Nat) (call : EventStoreCall) (k : PublishKnowledge) (done : List Batch) :
    Prop where
  own : done.filter (·.call == c) = k.committed.filterMap fun changeset =>
    call.batch? c changeset.events
  changesets : ∀ changeset ∈ k.committed,
    changeset = ⟨call.target, lastRevision changeset.events, changeset.events⟩
  loaded : ∀ aggregate, k.loaded = some aggregate → ∃ seen, seen <+: done ∧
    aggregate = Aggregate.fromEvents call.target (streamOf seen call.target)

theorem filter_call_eq_nil : done.filter (·.call == c) = [] ↔ c ∉ done.map Batch.call := by
  simp [List.filter_eq_nil_iff]

theorem Attempted.start (absent : c ∉ done.map Batch.call) : Attempted c call {} done where
  own := filter_call_eq_nil.mpr absent
  changesets changeset member := by cases member
  loaded aggregate seen := by cases seen

/-- What others commit leaves it alone. -/
theorem Attempted.append (h : Attempted c call k done) (other : c ∉ more.map Batch.call) :
    Attempted c call k (done ++ more) where
  own := by
    rw [List.filter_append, filter_call_eq_nil.mpr other, List.append_nil]
    exact h.own
  changesets := h.changesets
  loaded aggregate seen := by
    obtain ⟨before, prior, same⟩ := h.loaded aggregate seen
    exact ⟨before, prior.trans (List.prefix_append _ _), same⟩

/-- An operation that commits nothing leaves the batches and may load the stream. -/
theorem Attempted.quiet (h : Attempted c call k done) {k' : PublishKnowledge}
    (committed : k'.committed = k.committed)
    (loaded : ∀ aggregate, k'.loaded = some aggregate → k.loaded = some aggregate ∨
      aggregate = Aggregate.fromEvents call.target (streamOf done call.target)) :
    Attempted c call k' done where
  own := by
    rw [committed]
    exact h.own
  changesets := by
    rw [committed]
    exact h.changesets
  loaded aggregate seen := by
    rcases loaded aggregate seen with before | now
    · exact h.loaded aggregate before
    · exact ⟨done, List.prefix_refl _, now⟩

/-- A call without a committed attempt has no batch. -/
theorem Attempted.absent (h : Attempted c call k done) (clean : k.committed = []) :
    c ∉ done.map Batch.call := by
  rw [← filter_call_eq_nil, h.own, clean]
  rfl

theorem Attempted.absent_of_load {id : AggregateId} (h : Attempted c (.load id) k done) :
    c ∉ done.map Batch.call := by
  rw [← filter_call_eq_nil, h.own, List.filterMap_eq_nil_iff]
  exact fun _ _ => rfl

/-- What a call answers is settled by the batches. -/
theorem Attempted.settled (h : Attempted c call k done) {result : EventStoreResult}
    (answered : callDone k call result) : Settled c done call result := by
  cases call with
  | load id =>
      obtain ⟨inner, rfl, known⟩ := answered
      cases inner with
      | error e => exact .loadFailed h.absent_of_load
      | ok aggregate =>
          rcases known aggregate rfl with loaded | rfl
          · obtain ⟨seen, prior, rfl⟩ := h.loaded aggregate loaded
            exact .loaded prior h.absent_of_load
          · exact .loaded (List.nil_prefix) h.absent_of_load
  | publish id options raws =>
      obtain ⟨inner, rfl, known⟩ := answered
      cases inner with
      | error e => exact .publishFailed (h.absent known.1)
      | ok changeset =>
          rcases known with ⟨nonempty, committed⟩ | ⟨rfl, clean, aggregate, -, rfl⟩
          · have own := h.own
            have named := h.changesets changeset (by rw [committed]; exact List.mem_singleton_self _)
            rw [committed] at own
            have member : ⟨c, id, options, raws, changeset.events⟩ ∈ done.filter (·.call == c) := by
              rw [own]
              exact List.mem_singleton_self _
            rw [named]
            exact .appended nonempty (List.mem_of_mem_filter member)
          · exact .nothing (h.absent clean)

end Known

/-! ### The run -/

section Run

variable [DecidableEq P] [UlidParser] {Call Result : Type} {self : Call → Nat}
  {program : Call → Program (StoreOp P Unit) StoreOp.Res Result} {behave : Call → Request Result}
  {trace : List (Event (StoreOp P Unit) StoreOp.Res Call Result)} {w w' : Cluster P Unit} {c : Nat}
  {call : Call} {k : Option EventStoreCall × PublishKnowledge}

/-- The database holds the committed batches, which account for the run. -/
structure Accounted (behave : Call → Request Result) (w : Cluster P Unit)
    (trace : List (Event (StoreOp P Unit) StoreOp.Res Call Result)) : Prop where
  logged : Logged (w.databases ()).events (committedLog () trace)
  history : History behave trace (committedBatches () trace)

/-- What a running request knows of its attempts. -/
def Knows (behave : Call → Request Result) (c : Nat) (call : Call)
    (k : Option EventStoreCall × PublishKnowledge)
    (trace : List (Event (StoreOp P Unit) StoreOp.Res Call Result)) : Prop :=
  (behave call).call? = k.1 ∧
    ∀ sc, k.1 = some sc → Attempted c sc k.2 (committedBatches () trace)

omit [DecidableEq P] [UlidParser] in
theorem Knows.other {event : Event (StoreOp P Unit) StoreOp.Res Call Result}
    (known : Knows behave c call k trace)
    (other : ∀ batch ∈ committedBatch () event, batch.call ≠ c) :
    Knows behave c call k (trace ++ [event]) := by
  refine ⟨known.1, fun sc asks => ?_⟩
  rw [committedBatches_concat]
  refine (known.2 sc asks).append ?_
  intro member
  obtain ⟨batch, inside, mine⟩ := List.mem_map.mp member
  exact other batch (Option.mem_toList.mp inside) mine

omit [DecidableEq P] [UlidParser] in
/-- A batch is committed under the call whose operation commits it. -/
theorem committedBatch_call {op : StoreOp P Unit} {r : op.Res} {batch : Batch}
    (commits : batch ∈ committedBatch () (.performed c call op r :
      Event (StoreOp P Unit) StoreOp.Res Call Result)) : batch.call = c := by
  unfold committedBatch at commits
  split at commits
  · next same =>
      cases same
      simp only [if_true, Option.mem_def, Option.some.injEq] at commits
      rw [← commits]
  · cases commits

/-- An attempt that commits. -/
theorem Accounted.commit (h : Accounted behave w trace) (known : Knows behave c call k trace)
    (invoked : .invoked c call ∈ trace) (unreturned : ∀ call r, .returned c call r ∉ trace)
    {id : AggregateId} {options : PublishOptions} {raws : List RawEvent} {changeset : ChangeSet}
    (may : (Discipline.tagged callDiscipline).may k
      (.tryPublishOnce () id options raws : StoreOp P Unit))
    (step : InstanceStep (self call) w (.tryPublishOnce () id options raws) (.ok changeset) w')
    {trace' : List (Event (StoreOp P Unit) StoreOp.Res Call Result)} (next : trace' = trace ++
      [.performed c call (.tryPublishOnce () id options raws) (.ok changeset)]) :
    Accounted behave w' trace' ∧ Knows behave c call
      (k.1, k.2.learn (.tryPublishOnce () id options raws : StoreOp P Unit) (.ok changeset)) trace' := by
  obtain ⟨sc, k⟩ := k
  rcases sc with _ | (id' | ⟨id', options', raws'⟩)
  · cases may
  · cases may
  · obtain ⟨rfl, rfl, rfl, nonempty, noneYet⟩ := may
    have clean : k.committed = [] := noneYet
    obtain ⟨outside, served⟩ := step
    obtain ⟨generator, table, once, rfl⟩ := serve_tryPublishOnce served
    obtain ⟨-, carries, sameId, revision⟩ := tryPublishOnce_rows once
    have attempted := known.2 _ rfl
    have batches : committedBatches () trace' =
        committedBatches () trace ++ [⟨c, id, options, raws, changeset.events⟩] := by
      rw [next, committedBatches_concat]
      rfl
    have follows : Batch.Follows ⟨c, id, options, raws, changeset.events⟩ (committedBatches () trace) := by
      refine ⟨nonempty, carries, fun e expecting => ?_⟩
      rw [← stream_committedLog]
      exact (h.logged.tryPublishOnce_expected nonempty expecting once).symm
    refine ⟨⟨?_, ?_⟩, known.1, fun sc asks => ?_⟩
    · rw [next, committedLog_concat]
      exact h.logged.serve served
    · rw [batches, next]
      exact (h.history.commit ⟨call, invoked, known.1⟩ unreturned (attempted.absent clean)
        follows).extend nofun
    · cases asks
      rw [batches]
      refine ⟨?_, ?_, ?_⟩
      · rw [List.filter_append, filter_call_eq_nil.mpr (attempted.absent clean)]
        simp [PublishKnowledge.learn, clean, EventStoreCall.batch?]
      · intro other member
        simp only [PublishKnowledge.learn, clean, List.nil_append, List.mem_singleton] at member
        subst member
        obtain ⟨aggregateId, last, events⟩ := other
        cases sameId
        obtain rfl : last = lastRevision events := revision
        rfl
      · intro aggregate loaded
        obtain ⟨seen, prior, same⟩ := attempted.loaded aggregate loaded
        exact ⟨seen, prior.trans (List.prefix_append _ _), same⟩

/-- An operation that commits nothing. -/
theorem Accounted.quiet (h : Accounted behave w trace) (known : Knows behave c call k trace)
    {op : StoreOp P Unit} {r : op.Res} (may : (Discipline.tagged callDiscipline).may k op)
    (step : InstanceStep (self call) w op r w')
    (nothing : committedBatch () (.performed c call op r :
      Event (StoreOp P Unit) StoreOp.Res Call Result) = none)
    {trace' : List (Event (StoreOp P Unit) StoreOp.Res Call Result)}
    (next : trace' = trace ++ [.performed c call op r]) :
    Accounted behave w' trace' ∧ Knows behave c call (k.1, k.2.learn op r) trace' := by
  obtain ⟨outside, served⟩ := step
  have batches : committedBatches () trace' = committedBatches () trace := by
    rw [next, committedBatches_concat, nothing]
    exact List.append_nil _
  refine ⟨⟨?_, ?_⟩, known.1, fun sc asks => ?_⟩
  · rw [next, committedLog_concat]
    exact h.logged.serve served
  · rw [batches, next]
    exact h.history.extend nofun
  · rw [batches]
    have attempted := known.2 sc asks
    cases op with
    | tryPublishOnce conn id options raws =>
        match r with
        | .ok changeset => cases nothing
        | .error (.conflict conflict) => exact attempted.quiet rfl fun _ same => .inl same
        | .error (.store error) => exact attempted.quiet rfl fun _ same => .inl same
    | loadFromConnection conn id =>
        have target : id = sc.target := by
          obtain ⟨asked, k⟩ := k
          cases asks
          cases sc with
          | load id' => exact may
          | publish id' options raws => exact may.1
        simp only [serve] at served
        split at served
        · cases served
          exact attempted.quiet rfl fun _ same => .inl same
        · have loads : loadFromConnection (w.databases conn).events id =
              .ok (Aggregate.fromEvents id ((committedLog () trace).stream id)) := h.logged.load
          rw [loads, stream_committedLog, target] at served
          cases served
          exact attempted.quiet rfl fun _ same => .inr (Option.some.inj same).symm
    | catalog op => exact attempted.quiet rfl fun _ same => .inl same
    | cachedConnection partition => exact attempted.quiet rfl fun _ same => .inl same
    | cacheConnection partition conn => exact attempted.quiet rfl fun _ same => .inl same
    | removeConnection partition => exact attempted.quiet rfl fun _ same => .inl same
    | cachedPartitions => exact attempted.quiet rfl fun _ same => .inl same
    | enumerateAllFromConnection conn => exact attempted.quiet rfl fun _ same => .inl same
    | enumerateByTypeFromConnection conn type => exact attempted.quiet rfl fun _ same => .inl same
    | sleep backoffMs => exact attempted.quiet rfl fun _ same => .inl same
    | unreachable message => cases served

/-- The rely-guarantee rule of programs that serve requests on one database. -/
def settlementRule (strategies : Call → PartitionStrategy P) (catalogs : Call → PartitionCatalog P Unit)
    (behave : Call → Request Result)
    (serves : ∀ call, program call = (sqliteStore (strategies call) (catalogs call)).serve (behave call))
    (mayInvoke : List (Event (StoreOp P Unit) StoreOp.Res Call Result) → Call → Prop) :
    Pool.Rule (S := clusterOf self program mayInvoke) (K := Option EventStoreCall × PublishKnowledge)
      (G := Unit) (Discipline.tagged callDiscipline) fun _ _ => True where
  inv _ w trace := Accounted behave w trace
  holds _ c call k _ trace := Knows behave c call k trace
  start call := ((behave call).call?, {})
  done call k r := requestDone k.2 (behave call) r
  obeys call := by
    dsimp only
    rw [serves]
    exact obeys_request (strategies call) (catalogs call) (behave call)
  invoke {g w trace c call} h fresh _ _ := by
    have batches : committedBatches () (trace ++ [.invoked c call]) = committedBatches () trace := by
      rw [committedBatches_concat]
      exact List.append_nil _
    refine ⟨(), ⟨?_, ?_⟩, ⟨rfl, fun sc _ => ?_⟩, fun c' call' k' _ known => known.other nofun⟩
    · rw [committedLog, batches]
      exact h.logged
    · rw [batches]
      exact h.history.extend nofun
    · rw [batches]
      refine .start fun member => ?_
      obtain ⟨batch, inside, mine⟩ := List.mem_map.mp member
      obtain ⟨call', invoked, -⟩ := h.history.asked batch inside
      exact fresh _ invoked mine
  perform {g w trace c call k op r w'} h began known may _ step := by
    rw [learn_call]
    refine ⟨(), ?_⟩
    have others : ∀ c' call' k', c' ≠ c → Knows behave c' call' k' trace →
        Knows behave c' call' k' (trace ++ [.performed c call op r]) := by
      intro c' call' k' ne other
      refine other.other fun batch commits => ?_
      rw [committedBatch_call commits]
      exact ne.symm
    by_cases attempt : ∃ conn id options raws, op = .tryPublishOnce conn id options raws
    · obtain ⟨conn, id, options, raws, rfl⟩ := attempt
      cases r with
      | ok changeset =>
          obtain ⟨accounted, knows⟩ := h.commit known began.1 began.2 may step rfl
          exact ⟨accounted, knows, others⟩
      | error e =>
          obtain ⟨accounted, knows⟩ := h.quiet known may step rfl rfl
          exact ⟨accounted, knows, others⟩
    · have nothing : committedBatch ()
          (.performed c call op r : Event (StoreOp P Unit) StoreOp.Res Call Result) = none :=
        committedBatch_other fun conn id options raws same => attempt ⟨conn, id, options, raws, same⟩
      obtain ⟨accounted, knows⟩ := h.quiet known may step nothing rfl
      exact ⟨accounted, knows, others⟩
  finish {g w trace c call k result} h began known ended _ := by
    have batches : committedBatches () (trace ++ [.returned c call result]) =
        committedBatches () trace := by
      rw [committedBatches_concat]
      exact List.append_nil _
    refine ⟨(), ⟨?_, ?_⟩, fun c' call' k' _ known => known.other nofun⟩
    · rw [committedLog, batches]
      exact h.logged
    · rw [batches]
      refine h.history.finish ?_
      cases request : behave call with
      | answered a =>
          rw [request] at ended
          exact ended
      | storeCall sc respond =>
          rw [request] at ended
          obtain ⟨r, answered, rfl⟩ := ended
          have asks : k.1 = some sc := by
            rw [← known.1, request]
            rfl
          exact ⟨r, (known.2 sc asks).settled answered, rfl⟩

/-- Every reachable state of requests on one database is accounted for by its batches. -/
theorem reachable_accounted {strategies : Call → PartitionStrategy P}
    {catalogs : Call → PartitionCatalog P Unit}
    {mayInvoke : List (Event (StoreOp P Unit) StoreOp.Res Call Result) → Call → Prop}
    (serves : ∀ call, program call = (sqliteStore (strategies call) (catalogs call)).serve (behave call))
    {generators : Nat → Generator} {p : Pool (clusterOf self program mayInvoke)}
    (reach : Pool.Reachable (Cluster.initial generators) p) : Accounted behave p.shared p.trace := by
  let rule : Pool.Rule (S := clusterOf self program mayInvoke) (G := Unit) _ _ :=
    settlementRule strategies catalogs behave serves mayInvoke
  have begin : rule.inv () (Cluster.initial generators) [] := ⟨Logged.empty, History.nil behave⟩
  obtain ⟨_, accounted, _⟩ := rule.sound begin reach
  exact accounted

end Run
end WeeEvents.Sqlite
