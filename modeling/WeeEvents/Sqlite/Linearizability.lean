import WeeEvents.Sqlite.Effects
import WeeEvents.Sqlite.Conflicts
import WeeEvents.SharedStore

/-!
# Stores over many databases are linearizable

Any calls on any number of store instances, whatever databases their aggregates
live in, as long as each aggregate lives in one: the calls are explained by a store
that takes one call at a time. The order is that of their effects, and the log it
leads to is split over the databases.
-/
namespace WeeEvents.Sqlite
open Foundation

variable {P D : Type} [DecidableEq D]

/-! ### A log over many databases -/

/-- The entries of the aggregates whose home is `d`. -/
def homeLog (home : AggregateId → D) (log : EventLog) (d : D) : EventLog :=
  log.filter fun entry => home entry.1 = d

theorem homeLog_append (home : AggregateId → D) (log more : EventLog) (d : D) :
    homeLog home (log ++ more) d = homeLog home log d ++ homeLog home more d :=
  List.filter_append ..

theorem stream_homeLog (home : AggregateId → D) (log : EventLog) (id : AggregateId) :
    (homeLog home log (home id)).stream id = log.stream id := by
  unfold EventLog.stream homeLog
  rw [List.filter_filter]
  congr 1
  apply List.filter_congr
  intro entry _
  by_cases same : entry.1 = id
  · simp [same]
  · simp [same]

theorem homeLog_entries {home : AggregateId → D} {id : AggregateId} {d : D} (events : List RecordedEvent) :
    homeLog home (entries id events) d = if d = home id then entries id events else [] := by
  unfold homeLog entries
  rw [List.filter_map]
  by_cases here : d = home id
  · simp [here, Function.comp_def]
  · simp [here, Ne.symm here, Function.comp_def]

/-- Each database holds the entries of the aggregates that live in it. -/
def Placed (home : AggregateId → D) (databases : D → Database) (log : EventLog) : Prop :=
  ∀ d, Logged (databases d).events (homeLog home log d)

section Placed

variable {home : AggregateId → D} {databases databases' : D → Database} {log : EventLog}

theorem Placed.empty (noRows : ∀ d, (databases d).events = .empty) : Placed home databases [] := by
  intro d
  rw [noRows d]
  exact .empty

theorem Placed.keep (placed : Placed home databases log)
    (events : ∀ d, (databases' d).events = (databases d).events) : Placed home databases' log := by
  intro d
  rw [events d]
  exact placed d

theorem Placed.ordered (placed : Placed home databases log) : log.Ordered where
  increasing id := by
    rw [← stream_homeLog home]
    exact (placed (home id)).increasing id
  nonzero entry member := by
    refine (placed (home entry.1)).nonzero entry ?_
    simpa [homeLog] using member

/-- What a load reads in the home of its aggregate. -/
theorem Placed.load [UlidParser] (placed : Placed home databases log) (id : AggregateId) :
    loadFromConnection (databases (home id)).events id = .ok (Aggregate.fromEvents id (log.stream id)) := by
  rw [← stream_homeLog home]
  exact (placed (home id)).load

/-- A database without rows of an aggregate that lives in it. -/
theorem Placed.stream_eq_nil (placed : Placed home databases log) {id : AggregateId}
    (noRows : (databases (home id)).events.rowsOf id = []) : log.stream id = [] := by
  have rows : (databases (home id)).events.rowsOf id = _ := (placed (home id)).rowsOf
  rw [noRows, stream_homeLog] at rows
  exact List.map_eq_nil_iff.mp rows.symm

/-- An attempt that commits in the home of its aggregate. -/
theorem Placed.append [UlidParser] (placed : Placed home databases log) {failures : AttemptFailures}
    {g g' : Generator} {id : AggregateId} {options : PublishOptions} {raws : List RawEvent}
    {changeset : ChangeSet} {table : EventsTable}
    (once : tryPublishOnce failures g (databases (home id)).events id options raws =
      (.ok changeset, g', table))
    (here : (databases' (home id)).events = table)
    (elsewhere : ∀ d, d ≠ home id → (databases' d).events = (databases d).events) :
    Placed home databases' (log ++ entries id changeset.events) := by
  intro d
  rw [homeLog_append, homeLog_entries]
  by_cases same : d = home id
  · subst same
    rw [here, if_pos rfl]
    exact (placed (home id)).tryPublishOnce once
  · rw [elsewhere d same, if_neg same, List.append_nil]
    exact placed d

end Placed
/-- A call that failed without an effect may have failed on any log. -/
theorem EffectDone.failed {call : EventStoreCall} {result : EventStoreResult}
    (done : EffectDone call none result) (log : EventLog) : StoreAnswer log call result log := by
  cases done with
  | loadFailed => exact .load .loadFailed
  | publishFailed honest =>
      refine .publish .publishFailed fun expected actual same => ?_
      exact absurd (Except.error.inj same) (honest expected actual)

/-! ### One operation -/

/-- The operation is on the database its aggregate lives in. -/
def AtHome (home : AggregateId → D) : StoreOp P D → Prop
  | .tryPublishOnce conn id _ _ => conn = home id
  | .loadFromConnection conn id => conn = home id
  | _ => True

/-- The operation finds no database. -/
def findsNothing : (op : StoreOp P D) → op.Res → Bool
  | .catalog op, r => reportsMissing op r
  | _, _ => false

section Step

variable [DecidableEq P] [UlidParser] {home : AggregateId → D} {looks : AggregateId → CatalogOp D → Prop}
  {outside : Outside D} {self : Nat} {w w' : Cluster P D} {log : EventLog} {call : EventStoreCall}

/-- What an operation does to the log: nothing, or the effect of its call. -/
inductive Moves (call : EventStoreCall) (log : EventLog) : Option EventStoreResult → EventLog → Prop
  | stays : Moves call log none log
  | effect {result : EventStoreResult} {log' : EventLog} :
      StoreAnswer log call result log' → Moves call log (some result) log'

theorem Placed.attempt (placed : Placed home w.databases log) {id : AggregateId}
    {options : PublishOptions} {raws : List RawEvent} (nonempty : raws ≠ [])
    {r : Except PublishAttemptError ChangeSet}
    (served : serve outside self w (.tryPublishOnce (home id) id options raws) = some (r, w')) :
    ∃ log', Placed home w'.databases log' ∧
      Moves (.publish id options raws) log (attemptOutcome options r) log' := by
  obtain ⟨generator, table, once, rfl⟩ := serve_tryPublishOnce served
  have logged := placed (home id)
  have last := congrArg lastRevision (stream_homeLog home log id)
  match r with
  | .ok changeset =>
      have grown : Placed home (Function.update w.databases (home id)
          { w.databases (home id) with events := table }) (log ++ entries id changeset.events) := by
        refine placed.append once ?_ fun d ne => ?_
        · rw [Function.update_self]
        · rw [Function.update_of_ne ne]
      obtain ⟨-, carries, rfl, revision⟩ := tryPublishOnce_rows once
      have asked : ∀ e, options.expectedRevision = some e →
          e = lastRevision (log.stream changeset.aggregateId) := by
        intro e expecting
        rw [← last]
        exact (logged.tryPublishOnce_expected nonempty expecting once).symm
      have step := StoreStep.appended nonempty carries asked grown.ordered
      rw [← revision] at step
      exact ⟨_, grown, .effect (.committed step)⟩
  | .error e =>
      have kept : Placed home (Function.update w.databases (home id)
          { w.databases (home id) with events := table }) log := by
        refine placed.keep fun d => ?_
        by_cases same : d = home id
        · rw [same, Function.update_self]
          exact tryPublishOnce_error once
        · rw [Function.update_of_ne same]
      refine ⟨log, kept, ?_⟩
      cases e with
      | store e =>
          obtain ⟨b, rfl⟩ := tryPublishOnce_store once
          exact .stays
      | conflict c =>
          cases expecting : options.expectedRevision with
          | none =>
              rw [attemptOutcome, expecting]
              exact .stays
          | some e =>
              rw [attemptOutcome, expecting]
              obtain ⟨expected, actual, -⟩ := logged.tryPublishOnce_conflict expecting once
              refine .effect (.publish .publishFailed fun _ _ same => ?_)
              cases same
              exact ⟨expecting.trans (congrArg some expected.symm), actual.trans last⟩

theorem Placed.read (placed : Placed home w.databases log) {id : AggregateId}
    (asks : call = .load id ∨ ∃ options, call = .publish id options [])
    {r : Except SqliteError Aggregate}
    (served : serve outside self w (.loadFromConnection (home id) id) = some (r, w')) :
    w' = w ∧ Moves call log (effectOf call (.loadFromConnection (home id) id : StoreOp P D) r) log := by
  simp only [serve] at served
  split at served
  · cases served
    refine ⟨rfl, ?_⟩
    rcases asks with rfl | ⟨options, rfl⟩
    · exact .stays
    · exact .stays
  · rw [placed.load] at served
    cases served
    refine ⟨rfl, ?_⟩
    rcases asks with rfl | ⟨options, rfl⟩
    · exact .effect (.load .loaded)
    · exact .effect (.committed .nothing)

/-- Each operation that a call may make moves the log as its effect says. -/
theorem Placed.step (placed : Placed home w.databases log) {op : StoreOp P D} {r : op.Res}
    (may : effectMay looks call op) (atHome : AtHome home op)
    (nothing : ∀ id, call = .load id → findsNothing op r = true → log.stream id = [])
    (served : serve outside self w op = some (r, w')) :
    ∃ log', Placed home w'.databases log' ∧ Moves call log (effectOf call op r) log' := by
  cases op with
  | tryPublishOnce conn id options raws =>
      obtain ⟨rfl, nonempty⟩ := may
      obtain rfl : conn = home id := atHome
      exact placed.attempt nonempty served
  | loadFromConnection conn id =>
      obtain rfl : conn = home id := atHome
      obtain ⟨rfl, moves⟩ := placed.read may served
      exact ⟨log, placed, moves⟩
  | catalog op =>
      refine ⟨log, placed.keep (serve_other nofun served).1, ?_⟩
      cases call with
      | publish id options raws => exact .stays
      | load id =>
          rw [effectOf]
          split
          · next missing =>
              have empty := nothing id rfl missing
              have loaded : StoreAnswer log (.load id) (.loaded (.ok (Aggregate.fromEvents id (log.stream id)))) log :=
                .load .loaded
              rw [empty] at loaded
              exact .effect loaded
          · exact .stays
  | enumerateAllFromConnection conn => cases may
  | enumerateByTypeFromConnection conn type => cases may
  | unreachable message => cases may
  | cachedConnection partition => exact ⟨log, placed.keep (serve_other nofun served).1, .stays⟩
  | cacheConnection partition conn => exact ⟨log, placed.keep (serve_other nofun served).1, .stays⟩
  | removeConnection partition => exact ⟨log, placed.keep (serve_other nofun served).1, .stays⟩
  | cachedPartitions => exact ⟨log, placed.keep (serve_other nofun served).1, .stays⟩
  | sleep backoffMs => exact ⟨log, placed.keep (serve_other nofun served).1, .stays⟩

end Step
/-! ### Calls among others -/

/-- A system whose calls run programs of store operations over some shared state. -/
abbrev storeSystem {P D Shared Call Result : Type}
    (program : Call → Program (StoreOp P D) StoreOp.Res Result)
    (step : Nat → Call → Shared → (op : StoreOp P D) → op.Res → Shared → Prop)
    (mayInvoke : List (Event (StoreOp P D) StoreOp.Res Call Result) → Call → Prop) : System where
  Op := StoreOp P D
  Res := StoreOp.Res
  Shared := Shared
  Call := Call
  Result := Result
  program := program
  step := step
  mayInvoke := mayInvoke

/-- The effects of one store call, if there is one. Without it nothing is attempted. -/
def effectsOf (looks : AggregateId → CatalogOp D → Prop) :
    Option EventStoreCall → Discipline (StoreOp P D) StoreOp.Res (Option EventStoreResult)
  | some call => effectDiscipline looks call
  | none => ⟨fun _ op => ∀ conn id options raws, op ≠ .tryPublishOnce conn id options raws, fun k _ _ => k⟩

/-- What a running call knows of its place in the order. -/
structure Stands (order : List (Completed EventStoreCall EventStoreResult)) (c : Nat)
    (asks : Option EventStoreCall) (k : Option EventStoreCall × Option EventStoreResult) : Prop where
  asked : k.1 = asks
  pending : k.2 = none → c ∉ order.map Completed.caller
  settled : ∀ call result, asks = some call → k.2 = some result → ⟨c, call, result⟩ ∈ order

section Stands

variable {order : List (Completed EventStoreCall EventStoreResult)} {c : Nat}
  {asks : Option EventStoreCall} {k : Option EventStoreCall × Option EventStoreResult}

theorem Stands.start (absent : c ∉ order.map Completed.caller) : Stands order c asks (asks, none) where
  asked := rfl
  pending _ := absent
  settled call result _ decided := by cases decided

theorem Stands.other (h : Stands order c asks k) {entry : Completed EventStoreCall EventStoreResult}
    (other : c ≠ entry.caller) : Stands (order ++ [entry]) c asks k where
  asked := h.asked
  pending undecided := by
    rw [List.map_append, List.mem_append, not_or]
    exact ⟨h.pending undecided, by simpa using other⟩
  settled call result asking decided := List.mem_append_left _ (h.settled call result asking decided)

theorem Stands.point {call : EventStoreCall} {result : EventStoreResult} (asking : asks = some call) :
    Stands (order ++ [⟨c, call, result⟩]) c asks (asks, some result) where
  asked := rfl
  pending undecided := by cases undecided
  settled call' result' asking' decided := by
    cases asking.symm.trans asking'
    cases decided
    exact List.mem_append_right _ (List.mem_singleton_self _)

end Stands

section Layer

variable [DecidableEq P] [UlidParser] {Shared Call Result K G : Type}
  {program : Call → Program (StoreOp P D) StoreOp.Res Result}
  {step : Nat → Call → Shared → (op : StoreOp P D) → op.Res → Shared → Prop}
  {mayInvoke : List (Event (StoreOp P D) StoreOp.Res Call Result) → Call → Prop}
  {view : Shared → Cluster P D} {site : Call → Nat} {home : AggregateId → D}
  {looks : AggregateId → CatalogOp D → Prop}
  {asks : Call → Option EventStoreCall} {answers : Result → Option EventStoreResult}
  {placing : Discipline (StoreOp P D) StoreOp.Res K}
  {allowed : Shared → Event (StoreOp P D) StoreOp.Res Call Result → Prop}
  {base : Pool.Rule (S := storeSystem program step mayInvoke) (G := G)
    (placing.both (Discipline.tagged (effectsOf looks))) allowed}

/-- A rule by which every operation is on the database its aggregate lives in, and a lookup that
finds no database is right. -/
structure KeepsHome (view : Shared → Cluster P D) (site : Call → Nat) (home : AggregateId → D)
    (asks : Call → Option EventStoreCall) (answers : Result → Option EventStoreResult)
    (base : Pool.Rule (S := storeSystem program step mayInvoke) (G := G)
      (placing.both (Discipline.tagged (effectsOf looks))) allowed) : Prop where
  serves : ∀ {c call s op r s'}, step c call s op r s' →
    InstanceStep (site call) (view s) op r (view s')
  start : ∀ call, (base.start call).2 = (asks call, none)
  done : ∀ {call k result asked}, base.done call k result → asks call = some asked →
    ∃ answer, answers result = some answer ∧ EffectDone asked k.2.2 answer
  atHome : ∀ {g s trace c call k op r s'}, base.inv g s trace → base.holds g c call k s trace →
    placing.may k.1 op → step c call s op r s' → allowed s (.performed c call op r) → AtHome home op
  nothing : ∀ {g s trace c call k op r s' id}, base.inv g s trace → base.holds g c call k s trace →
    placing.may k.1 op → step c call s op r s' → allowed s (.performed c call op r) →
    asks call = some (.load id) → effectMay looks (.load id) op → findsNothing op r = true →
    ((view s).databases (home id)).events.rowsOf id = []

omit [DecidableEq D] [UlidParser] [DecidableEq P] in
theorem caller_absent {order : List (Completed EventStoreCall EventStoreResult)} {log : EventLog}
    {trace : List (Event (StoreOp P D) StoreOp.Res Call Result)} {c : Nat}
    (h : ExplainedBy StoreAnswer asks answers [] trace order log)
    (fresh : ∀ event ∈ trace, event.caller ≠ c) : ∀ entry ∈ order, entry.caller ≠ c := by
  intro entry member
  obtain ⟨call, invoked, -⟩ := h.own entry member
  exact fresh _ invoked

/-- The order of effects explains the run, and the databases hold the log it leads to. -/
def explainedLayer (keeps : KeepsHome view site home asks answers base) :
    base.Layer (List (Completed EventStoreCall EventStoreResult) × EventLog) where
  inv h s trace := ExplainedBy StoreAnswer asks answers [] trace h.1 h.2 ∧
    Placed home (view s).databases h.2
  holds h c call k _ _ := Stands h.1 c (asks call) k.2
  invoke {g h s trace c call} _ held fresh _ := by
    obtain ⟨explained, placed⟩ := held
    have absent := caller_absent explained fresh
    refine ⟨h, ⟨explained.extend ?_ nofun, placed⟩, ?_, fun _ _ _ _ _ stands => stands⟩
    · intro c' call' same
      cases same
      exact absent
    · rw [keeps.start]
      refine .start fun member => ?_
      obtain ⟨entry, inside, mine⟩ := List.mem_map.mp member
      exact absent entry inside mine
  perform {g h s trace c call k op r s'} based held began known stands may permitted stepped := by
    obtain ⟨explained, placed⟩ := held
    have explained : ExplainedBy StoreAnswer asks answers [] (trace ++ [.performed c call op r]) h.1 h.2 :=
      explained.extend nofun nofun
    obtain ⟨outside, served⟩ := keeps.serves stepped
    obtain ⟨first, asked, effect⟩ := k
    obtain rfl : asked = asks call := stands.asked
    obtain ⟨invoked, unreturned⟩ := began.performed op r
    cases asking : asks call with
    | none =>
        rw [asking] at stands may
        exact ⟨h, ⟨explained, placed.keep (serve_other may.2 served).1⟩, stands,
          fun _ _ _ _ _ stands => stands⟩
    | some sc =>
        rw [asking] at stands may
        obtain ⟨undecided, mayCall⟩ := may.2
        obtain rfl : effect = none := undecided
        have nothing : ∀ id, sc = .load id → findsNothing op r = true → h.2.stream id = [] := by
          rintro id rfl missing
          exact placed.stream_eq_nil (keeps.nothing based known may.1 stepped permitted asking mayCall missing)
        obtain ⟨log', placed', moves⟩ := placed.step mayCall
          (keeps.atHome based known may.1 stepped permitted) nothing served
        have learned : (placing.both (Discipline.tagged (effectsOf looks))).learn (first, some sc, none) op r =
            (placing.learn first op r, some sc, effectOf sc op r) := rfl
        rw [learned]
        cases effect : effectOf sc op r with
        | none =>
            rw [effect] at moves
            cases moves
            exact ⟨h, ⟨explained, placed'⟩, stands, fun _ _ _ _ _ stands => stands⟩
        | some result =>
            rw [effect] at moves
            cases moves with
            | effect answer =>
                refine ⟨(h.1 ++ [⟨c, sc, result⟩], log'), ⟨?_, placed'⟩, .point rfl,
                  fun c' call' k' ne _ stands => stands.other ne⟩
                exact explained.point invoked asking unreturned (stands.pending rfl) answer
  finish {g h s trace c call k result} based held began known stands ended := by
    obtain ⟨explained, placed⟩ := held
    cases asking : asks call with
    | none =>
        refine ⟨h, ⟨explained.finish fun asked asking' => ?_, placed⟩, fun _ _ _ _ _ stands => stands⟩
        cases asking.symm.trans asking'
    | some sc =>
        obtain ⟨answer, answered, done⟩ := keeps.done ended asking
        cases effect : k.2.2 with
        | some result' =>
            rw [effect] at done
            cases done
            refine ⟨h, ⟨explained.finish fun asked asking' => ?_, placed⟩, fun _ _ _ _ _ stands => stands⟩
            cases asking.symm.trans asking'
            exact ⟨answer, answered, stands.settled sc answer asking effect⟩
        | none =>
            rw [effect] at done
            have now := explained.point began.1 asking began.2 (stands.pending effect) (done.failed h.2)
            refine ⟨(h.1 ++ [⟨c, sc, answer⟩], h.2), ⟨now.finish fun asked asking' => ?_, placed⟩,
              fun c' call' k' ne _ stands => stands.other ne⟩
            cases asking.symm.trans asking'
            exact ⟨answer, answered, List.mem_append_right _ (List.mem_singleton_self _)⟩

/-- Where every call stays at home, a store that takes one call at a time explains the run. -/
theorem KeepsHome.explained (keeps : KeepsHome view site home asks answers base) {g : G} {s₀ : Shared}
    (start : base.inv g s₀ []) (noRows : ∀ d, ((view s₀).databases d).events = .empty)
    {p : Pool (storeSystem program step mayInvoke)} (reach : Pool.ReachableBy allowed s₀ p) :
    ∃ order log, ExplainedBy StoreAnswer asks answers [] p.trace order log ∧
      Placed home (view p.shared).databases log := by
  have both : (base.extend (explainedLayer keeps)).inv (g, ([], [])) s₀ [] :=
    ⟨start, .nil, .empty noRows⟩
  obtain ⟨⟨g, order, log⟩, ⟨-, explained, placed⟩, -⟩ := Pool.Rule.sound _ both reach
  exact ⟨order, log, explained, placed⟩

end Layer

/-! ### Instances on remote databases -/

section Remote

variable [LinearOrder P]

/-- The shipped catalogs of remote databases. -/
inductive RemoteCatalog : PartitionStrategy P → PartitionCatalog P D → Prop
  | singleTarget (strategy : PartitionStrategy P) : RemoteCatalog strategy singleTargetCatalog
  | namedTarget (naming : PartitionNamingStrategy P D) :
      RemoteCatalog naming.toPartitionStrategy (namedTargetCatalog naming)

omit [DecidableEq D] in
theorem RemoteCatalog.looksUp {strategy : PartitionStrategy P} {catalog : PartitionCatalog P D}
    (remote : RemoteCatalog strategy catalog) : LooksUp (fun _ _ => True) strategy catalog := by
  cases remote with
  | singleTarget => exact looksUp_singleTarget strategy
  | namedTarget naming => exact looksUp_namedTarget naming

variable [UlidParser] {strategies : Nat → PartitionStrategy P} {catalogs : Nat → PartitionCatalog P D}

/-- Loads and publishes on any number of instances, each with its own strategy and catalog. -/
abbrev instances (strategies : Nat → PartitionStrategy P) (catalogs : Nat → PartitionCatalog P D) :
    System :=
  clusterOf (Prod.fst : Nat × EventStoreCall → Nat) fun call =>
    (sqliteStore (strategies call.1) (catalogs call.1)).call call.2

/-- Connections lead to the database of the aggregate, and one that is said not to exist has no
rows of it. -/
def Faithful (home : AggregateId → D) (w : Cluster P D) :
    Event (StoreOp P D) StoreOp.Res (Nat × EventStoreCall) EventStoreResult → Prop
  | .performed _ call op r => AtHome home op ∧ ∀ id, call.2 = .load id → findsNothing op r = true →
      (w.databases (home id)).events.rowsOf id = []
  | _ => True

/-- Nothing but the effects of the calls is known. -/
def effectsRule (home : AggregateId → D)
    (finds : ∀ i, LooksUp (fun _ _ => True) (strategies i) (catalogs i)) :
    Pool.Rule (S := instances strategies catalogs) (G := Unit)
      (Discipline.free.both (Discipline.tagged (effectsOf fun _ _ => True))) (Faithful home) where
  inv _ _ _ := True
  holds _ _ _ _ _ _ := True
  start call := ((), some call.2, none)
  done call k result := EffectDone call.2 k.2.2 result
  obeys call := by
    have effects := (effect_call (finds call.1) call.2).tagged (D := effectsOf fun _ _ => True)
      (t := some call.2)
    exact ((Discipline.obeys_free _).both effects).mono fun k result known => known.2.2
  invoke _ _ _ _ := ⟨(), trivial, trivial, fun _ _ _ _ _ => trivial⟩
  perform _ _ _ _ _ _ := ⟨(), trivial, trivial, fun _ _ _ _ _ => trivial⟩
  finish _ _ _ _ _ := ⟨(), trivial, fun _ _ _ _ _ => trivial⟩

theorem keepsHome_effectsRule (home : AggregateId → D)
    (finds : ∀ i, LooksUp (fun _ _ => True) (strategies i) (catalogs i)) :
    KeepsHome id Prod.fst home (fun call => some call.2) some (effectsRule home finds) where
  serves stepped := stepped
  start _ := rfl
  done ended asking := by
    cases asking
    exact ⟨_, rfl, ended⟩
  atHome _ _ _ _ permitted := permitted.1
  nothing _ _ _ _ permitted asking _ missing := permitted.2 _ (Option.some.inj asking) missing

/-- However many databases its aggregates are spread over, and however many instances work on
them, the store answers like one that takes one call at a time. -/
theorem remote_stores_linearizable {home : AggregateId → D} {generators : Nat → Generator}
    (remote : ∀ i, RemoteCatalog (strategies i) (catalogs i)) {p : Pool (instances strategies catalogs)}
    (reach : Pool.ReachableBy (Faithful home) (Cluster.initial generators) p) :
    ∃ order log, ExplainedBy StoreAnswer (fun call => some call.2) some [] p.trace order log ∧
      Placed home p.shared.databases log :=
  (keepsHome_effectsRule home fun i => (remote i).looksUp).explained (g := ()) trivial (fun _ => rfl) reach

end Remote

/-! ### Two instances on one database -/

section Example

attribute [local instance] canonicalUlidParser

/-- The one database exists, and is found. -/
def presentDatabase : Outside Unit :=
  { database := (), existing := some .inMemory, pathExists := true }

theorem presentDatabase_permitted {P : Type} [LinearOrder P] {strategies : Nat → PartitionStrategy P}
    {catalogs : Nat → PartitionCatalog P Unit} {home : AggregateId → Unit} (c : Nat)
    (call : Nat × EventStoreCall) (w : Cluster P Unit) (op : StoreOp P Unit) (r : op.Res)
    (w' : Cluster P Unit) (served : answeredBy Prod.fst presentDatabase c call op w = some (r, w')) :
    Pool.PermittedStep (S := instances strategies catalogs) (Faithful home) c call w op r w' := by
  refine ⟨⟨presentDatabase, served⟩, ?_, fun id _ missing => ?_⟩
  · cases op with
    | tryPublishOnce conn id options events => exact Subsingleton.elim conn (home id)
    | loadFromConnection conn id => exact Subsingleton.elim conn (home id)
    | _ => exact trivial
  · cases op with
    | catalog op =>
        cases served
        cases op <;> cases missing
    | _ => cases missing

/-- A publish through one instance, and a load through another. -/
def publishedElsewhere : Option (List EventStoreResult × Cluster Unit Unit) :=
  Pool.runInOrder (S := instances (fun _ => (globalStrategy (D := Unit)).toPartitionStrategy)
      fun _ => singleTargetCatalog) (answeredBy Prod.fst presentDatabase) 0
    [(0, .publish sharedId {} [⟨⟨"incremented"⟩, ⟨.json, []⟩⟩]), (1, .load sharedId)]
    (Cluster.initial skewedGenerators)

/-- What one instance published the other one loads. -/
theorem loaded_elsewhere : ∃ p : Pool (instances
      (fun _ => (globalStrategy (D := Unit)).toPartitionStrategy) fun _ => singleTargetCatalog),
    Pool.ReachableBy (Faithful fun _ => ()) (Cluster.initial skewedGenerators) p ∧
      ((p.shared.databases ()).events.rowsOf sharedId).length = 1 ∧ ∃ order log,
        ExplainedBy StoreAnswer (fun call => some call.2) some [] p.trace order log := by
  have one : (publishedElsewhere.map fun run => ((run.2.databases ()).events.rowsOf sharedId).length) =
      some 1 := by decide +kernel
  obtain ⟨⟨results, w'⟩, run, length⟩ := Option.map_eq_some_iff.mp one
  have begin : Pool.ReachableBy (S := instances (fun _ => (globalStrategy (D := Unit)).toPartitionStrategy)
      fun _ => singleTargetCatalog) (Faithful fun _ => ()) (Cluster.initial skewedGenerators)
      (Pool.initial _) := .start
  obtain ⟨p, reach, rfl, -⟩ := begin.runInOrder (fun _ _ _ => ⟨trivial, fun _ => trivial⟩)
    presentDatabase_permitted (fun _ _ _ _ => trivial) (fun c' _ event member => by cases member) run
  obtain ⟨order, log, explained, -⟩ := remote_stores_linearizable (fun _ => .singleTarget _) reach
  exact ⟨p, reach, length, order, log, explained⟩

end Example
end WeeEvents.Sqlite
