import WeeEvents.Sqlite.ExactlyOnce
import WeeEvents.Sqlite.StreamOrder
import WeeEvents.Sqlite.Catalogs

/-!
# Which reported conflicts are real

A revision conflict is reported by a transaction that changed no row. On a log
that happens for two reasons: the stream does not end at the expected revision,
or it does and the revision just minted does not lie above it. Only the first is
a conflict that reloading resolves.
-/
namespace WeeEvents.Sqlite
open Foundation

section Attempt

variable [UlidParser] {t : EventsTable} {log : EventLog} {id : AggregateId}

theorem Logged.reportConflict_none (h : Logged t log) (id : AggregateId) (options : PublishOptions)
    (attempted : Revision) : ∃ c, Sqlite.reportConflict t id options attempted none = .conflict c := by
  unfold Sqlite.reportConflict currentRevision
  rw [h.maxRevision]
  cases (log.stream id).getLast? with
  | none => exact ⟨_, rfl⟩
  | some final =>
      simp only [Option.map_some, Revision.fromStr_text]
      exact ⟨_, rfl⟩

/-- Exactly when an attempt that expects the current revision reports a conflict:
nothing fails before the insert, and the fresh revision is not above it. -/
theorem Logged.tryPublishOnce_conflict_iff (logged : Logged t log) {failures : AttemptFailures}
    {g : Generator} {options : PublishOptions} {raw : RawEvent} {raws : List RawEvent} {e : Revision}
    (expected : options.expectedRevision = some e) (current : lastRevision (log.stream id) = e) :
    (∃ c, (Sqlite.tryPublishOnce failures g t id options (raw :: raws)).1 = .error (.conflict c)) ↔
      failures.begin = none ∧ failures.insert 0 = none ∧ failures.currentRevision = none ∧
        e ≠ Revision.zero ∧ ∃ u v, g.Mints u v ∧ Revision.fromUlid v ≤ e := by
  constructor
  · rintro ⟨c, reported⟩
    have h : Sqlite.tryPublishOnce failures g t id options (raw :: raws) =
        (.error (.conflict c), (Sqlite.tryPublishOnce failures g t id options (raw :: raws)).2) :=
      Prod.ext reported rfl
    obtain ⟨begun, ran, u, v, mints, blocked, reason⟩ := logged.tryPublishOnce_first h
    obtain ⟨_, actual, behind⟩ := logged.tryPublishOnce_conflict expected h
    refine ⟨begun, ran, ?_, behind (actual.trans current)⟩
    cases failed : failures.currentRevision with
    | none => rfl
    | some error =>
        rw [failed] at reason
        cases reason
  · rintro ⟨begun, ran, read, nonzero, u, v, mints, behind⟩
    have blocked : publishGuard t id options 0 (Revision.fromUlid v) = false := by
      rw [← Bool.not_eq_true, logged.publishGuard_current expected current]
      simp [nonzero, behind]
    obtain ⟨c, reason⟩ := logged.reportConflict_none id options (Revision.fromUlid v)
    refine ⟨c, ?_⟩
    simp only [Sqlite.tryPublishOnce, begun, Sqlite.publishEvents, publishEvent, generateUlid,
      Generator.generate, mints.eventId, mints.revision, ran, executePublishStatement_eq, blocked,
      insertWhere, Bool.false_eq_true, if_false, read, reason]

/-! The errors of an attempt that are not conflicts are the crate's own. -/

theorem reportConflict_store {options : PublishOptions} {attempted : Revision}
    {failure : Option LibsqlError} {e : SqliteError}
    (h : reportConflict t id options attempted failure = .store e) : ∃ b, e = .backend b := by
  unfold reportConflict currentRevision at h
  cases failure with
  | some error =>
      cases h
      exact ⟨_, rfl⟩
  | none =>
      dsimp only at h
      split at h
      · next same => cases same
      · cases h
      · split at h <;> cases h
        exact ⟨_, rfl⟩

omit [UlidParser] in
theorem insertWhere_error {tx : EventsTable} {guard : Bool} {row : Row} {e : SqliteError}
    (h : insertWhere tx guard row = .error e) : ∃ b, e = .backend b := by
  unfold insertWhere at h
  split at h
  · split at h <;> cases h
    exact ⟨_, rfl⟩
  · cases h

theorem publishEvent_store {failures : AttemptFailures} {options : PublishOptions} {index : Nat}
    {g g' : Generator} {tx : EventsTable} {raw : RawEvent} {e : SqliteError}
    (h : publishEvent failures id options index g tx raw = (.error (.store e), g')) :
    ∃ b, e = .backend b := by
  unfold publishEvent generateUlid at h
  simp only [executePublishStatement_eq] at h
  cases hu : g.generate.1 with
  | error refused =>
      simp only [Generator.generate] at hu h
      simp only [hu, Prod.mk.injEq, Except.error.injEq, PublishAttemptError.store.injEq] at h
      exact ⟨_, h.1.symm⟩
  | ok u =>
      simp only [Generator.generate] at hu h
      simp only [hu] at h
      cases hv : g.outcome (g.drawn + 1) with
      | error refused =>
          simp only [hv, Prod.mk.injEq, Except.error.injEq, PublishAttemptError.store.injEq] at h
          exact ⟨_, h.1.symm⟩
      | ok v =>
          simp only [hv] at h
          split at h
          · cases h
            exact ⟨_, rfl⟩
          · split at h
            · next failed =>
                cases h
                exact insertWhere_error failed
            · simp only [Prod.mk.injEq, Except.error.injEq] at h
              exact reportConflict_store h.1
            · cases h

theorem publishEvents_store {failures : AttemptFailures} {options : PublishOptions}
    {raws : List RawEvent} {index : Nat} {g g' : Generator} {tx : EventsTable} {e : SqliteError}
    (h : publishEvents failures id options index g tx raws = (.error (.store e), g')) :
    ∃ b, e = .backend b := by
  induction raws generalizing index g tx with
  | nil => cases h
  | cons raw raws ih =>
      rw [publishEvents] at h
      split at h
      · next first =>
          cases h
          exact publishEvent_store first
      · split at h
        · next later =>
            cases h
            exact ih later
        · cases h

theorem tryPublishOnce_store {failures : AttemptFailures} {g g' : Generator} {t' : EventsTable}
    {options : PublishOptions} {raws : List RawEvent} {e : SqliteError}
    (h : tryPublishOnce failures g t id options raws = (.error (.store e), g', t')) :
    ∃ b, e = .backend b := by
  unfold tryPublishOnce at h
  split at h
  · cases h
    exact ⟨_, rfl⟩
  · split at h
    · next inserted =>
        cases h
        exact publishEvents_store inserted
    · split at h <;> cases h
      exact ⟨_, rfl⟩

end Attempt

/-! ### Conflicts that a call returns -/

namespace ClusterStep

variable {P D : Type}

/-- The conflict a publish attempt reported, and the database it was made on. -/
def reports (step : ClusterStep P D) : Option (D × AggregateId × PublishOptions × PublishConflict) :=
  match step.op, step.response with
  | .tryPublishOnce conn id options _, .error (.conflict c) => some (conn, id, options, c)
  | _, _ => none

/-- The error, other than a conflict, a publish attempt failed with. -/
def fails (step : ClusterStep P D) : Option SqliteError :=
  match step.op, step.response with
  | .tryPublishOnce _ _ _ _, .error (.store e) => some e
  | _, _ => none

end ClusterStep

section Learned

variable {P D : Type} {id : AggregateId} {options : PublishOptions} {events : List RawEvent}
  {k : PublishKnowledge}

theorem learned_reported {c : PublishConflict} (steps : List (ClusterStep P D))
    (h : c ∈ ((publishDiscipline id options events).learned k steps).reported) :
    c ∈ k.reported ∨
      ∃ step ∈ steps, ∃ conn id' options', step.reports = some (conn, id', options', c) := by
  refine Discipline.learned_from (Q := fun k : PublishKnowledge => c ∈ k.reported) ?_ steps h
  rintro k ⟨before, op, response, after⟩ now
  simp only [publishDiscipline, PublishKnowledge.learn] at now
  split at now
  all_goals try exact .inl now
  next conn id' options' events' c' =>
    rcases List.mem_append.mp now with old | new
    · exact .inl old
    · rw [List.mem_singleton.mp new]
      exact .inr ⟨conn, id', options', rfl⟩

theorem learned_failed {e : SqliteError} (steps : List (ClusterStep P D))
    (h : e ∈ ((publishDiscipline id options events).learned k steps).failed) :
    e ∈ k.failed ∨ ∃ step ∈ steps, step.fails = some e := by
  refine Discipline.learned_from (Q := fun k : PublishKnowledge => e ∈ k.failed) ?_ steps h
  rintro k ⟨before, op, response, after⟩ now
  simp only [publishDiscipline, PublishKnowledge.learn] at now
  split at now
  all_goals try exact .inl now
  rcases List.mem_append.mp now with old | new
  · exact .inl old
  · rw [List.mem_singleton.mp new]
    exact .inr rfl

end Learned

section Condition

variable {P D : Type} [UlidParser]

/-- The condition on one operation: an attempt that expects the current revision
is made by an instance whose next revision lies above it. -/
def FreshRevisionAhead {Call Result : Type} (self : Call → Nat) (w : Cluster P D) :
    Event (StoreOp P D) StoreOp.Res Call Result → Prop
  | .performed _ call (.tryPublishOnce conn id options _) _ =>
      ∀ e u v, options.expectedRevision = some e → e ≠ Revision.zero →
        coalesceMax (w.databases conn).events id = e.text →
        (w.generators (self call)).Mints u v → e < Revision.fromUlid v
  | _ => True

section Runs

variable [LinearOrder P] [DecidableEq D] {strategies : Nat → PartitionStrategy P}
  {catalogs : Nat → PartitionCatalog P D} {generators : Nat → Generator}
  {allowed : Cluster P D → Event (StoreOp P D) StoreOp.Res (Nat × StoreCall) StoreResult → Prop}

/-- A conflict that a call returns was reported by one of its attempts, in a state
the run reached, as what the stream of the aggregate then was. -/
theorem returned_conflict {p : Pool (cluster strategies catalogs)}
    (reach : Pool.ReachableBy allowed (Cluster.initial generators) p) {c i : Nat} {id : AggregateId}
    {options : PublishOptions} {events : List RawEvent} {e expected actual : Revision}
    (nonempty : events ≠ []) (expecting : options.expectedRevision = some e)
    (returned : .returned c (i, .publish id options events)
      (.published (.error (.revisionConflict expected actual))) ∈ p.trace) :
    expected = e ∧ ∃ q : Pool (cluster strategies catalogs), ∃ conn r,
      Pool.ReachableBy allowed (Cluster.initial generators) q ∧ q.trace <+: p.trace ∧
      allowed q.shared (.performed c (i, .publish id options events)
        (.tryPublishOnce conn id options events) r) ∧
      actual = lastRevision (streamOf (committedBatches conn q.trace) id) ∧
      (actual = e → e ≠ Revision.zero ∧
        ∃ u v, (q.shared.generators i).Mints u v ∧ Revision.fromUlid v ≤ e) := by
  obtain ⟨steps, own, run⟩ := reach.returned_performs returned
  have obeys : (publishDiscipline id options events).Obeys
      (fun k r => ∃ r', publishDone id options events k r' ∧
        r = .published (r'.mapError SqliteError.into))
      (StoreCall.program (strategies i) (catalogs i) (.publish id options events)) {} := by
    refine (obeys_publish (strategies i) (catalogs i) rfl).bind fun k r known => ?_
    obtain ⟨r', done, rfl⟩ := known
    exact ⟨r', done, rfl⟩
  obtain ⟨⟨inner, known, same⟩, each⟩ := obeys.performs run
  have may : ∀ step ∈ steps, ∃ k, publishMay id options events k step.op := by
    intro step member
    obtain ⟨earlier, later, split⟩ := List.append_of_mem member
    exact ⟨_, (each earlier step later split).2⟩
  obtain ⟨error, rfl, conflict⟩ : ∃ error, inner = .error error ∧
      error = .weeEvents (.revisionConflict expected actual) := by
    cases inner with
    | ok changeset => cases same
    | error error =>
        refine ⟨error, rfl, ?_⟩
        cases error with
        | backend b => cases same
        | weeEvents inner =>
            cases same
            rfl
  rcases known.2 nonempty expected actual conflict with ⟨_, x, reported, rfl, rfl⟩ | failed
  · rcases learned_reported steps reported with initially | ⟨step, member, conn, id', options', reports⟩
    · cases initially
    · obtain ⟨⟨outside, served⟩, permitted, q, reached, shared, before⟩ := own step member
      obtain ⟨k, stepMay⟩ := may step member
      obtain ⟨before', op, response, after⟩ := step
      unfold ClusterStep.reports at reports
      split at reports
      · next conn' id'' options'' events'' x' isOp isResponse =>
          dsimp only at isOp isResponse shared served permitted stepMay
          subst isOp
          cases isResponse
          cases reports
          obtain ⟨rfl, rfl, rfl, _⟩ := stepMay
          obtain ⟨generator, table, once, _⟩ := serve_tryPublishOnce served
          have logged := reachable_logged reached conn
          rw [shared] at logged
          obtain ⟨sameExpected, current, behind⟩ := logged.tryPublishOnce_conflict expecting once
          refine ⟨sameExpected, q, conn, .error (.conflict x), reached,
            (List.prefix_append _ _).trans before, ?_, ?_, ?_⟩
          · rw [shared]
            exact permitted
          · rw [current, stream_committedLog]
          · rw [shared]
            exact behind
      · cases reports
  · rcases learned_failed steps failed with initially | ⟨step, member, fails⟩
    · cases initially
    · obtain ⟨⟨outside, served⟩, _⟩ := own step member
      obtain ⟨before', op, response, after⟩ := step
      unfold ClusterStep.fails at fails
      split at fails
      · next isOp isResponse =>
          dsimp only at isOp isResponse served
          subst isOp
          cases isResponse
          cases fails
          obtain ⟨generator, table, once, _⟩ := serve_tryPublishOnce served
          obtain ⟨b, backend⟩ := tryPublishOnce_store once
          rw [conflict] at backend
          cases backend
      · cases fails

/-- In every run whose attempts meet the condition, a returned conflict names the
caller's expectation and a different revision, which the stream did end at. And in
every reachable state an attempt that expects the current revision reports a
conflict exactly when the condition fails, nothing having failed before. -/
theorem reported_conflicts_are_real :
    (∀ p : Pool (cluster strategies catalogs),
      Pool.ReachableBy (FreshRevisionAhead Prod.fst) (Cluster.initial generators) p →
      ∀ c i id options events e expected actual, events ≠ [] →
        options.expectedRevision = some e →
        .returned c (i, .publish id options events)
          (.published (.error (.revisionConflict expected actual))) ∈ p.trace →
        expected = e ∧ actual ≠ expected ∧ ∃ q : Pool (cluster strategies catalogs), ∃ conn,
          q.trace <+: p.trace ∧
            actual = lastRevision (streamOf (committedBatches conn q.trace) id)) ∧
    (∀ p : Pool (cluster strategies catalogs), Pool.Reachable (Cluster.initial generators) p →
      ∀ i conn id options raw raws e failures, options.expectedRevision = some e →
        coalesceMax (p.shared.databases conn).events id = e.text →
        ((∃ c, (tryPublishOnce failures (p.shared.generators i) (p.shared.databases conn).events id
            options (raw :: raws)).1 = .error (.conflict c)) ↔
          failures.begin = none ∧ failures.insert 0 = none ∧ failures.currentRevision = none ∧
            e ≠ Revision.zero ∧
            ∃ u v, (p.shared.generators i).Mints u v ∧ Revision.fromUlid v ≤ e)) := by
  constructor
  · intro p reach c i id options events e expected actual nonempty expecting returned
    obtain ⟨rfl, q, conn, r, reached, before, ahead, current, behind⟩ :=
      returned_conflict reach nonempty expecting returned
    refine ⟨rfl, fun same => ?_, q, conn, before, current⟩
    obtain ⟨nonzero, u, v, mints, below⟩ := behind same
    have stream : coalesceMax (q.shared.databases conn).events id =
        (lastRevision ((committedLog conn q.trace).stream id)).text :=
      (reachable_logged reached conn).coalesceMax
    rw [stream_committedLog, ← current, same] at stream
    exact absurd (ahead expected u v expecting nonzero stream mints) (not_lt.mpr below)
  · intro p reach i conn id options raw raws e failures expecting current
    have logged := reachable_logged reach conn
    rw [logged.coalesceMax] at current
    exact logged.tryPublishOnce_conflict_iff expecting (Revision.ext current)

end Runs
end Condition

/-! ### An instance whose clock is behind -/

section Behind

attribute [local instance] canonicalUlidParser

/-- The first instance publishes; the second expects just that revision. -/
def behindCalls : List (Nat × StoreCall) :=
  [sharedPublish 0 {}, sharedPublish 1 { expectedRevision := some (Revision.fromUlid 101) }]

def behindRun : Option (List StoreResult × Cluster Unit Unit) :=
  Pool.runInOrder (S := sharedCluster) (answeredBy Prod.fst { database := () }) 0 behindCalls
    (Cluster.initial skewedGenerators)

/-- The second publish expects the current revision and is told of a conflict with it. -/
theorem spurious_conflict : ∃ p : Pool sharedCluster,
    Pool.Reachable (Cluster.initial skewedGenerators) p ∧
      .returned 1 (sharedPublish 1 { expectedRevision := some (Revision.fromUlid 101) })
        (.published (.error (.revisionConflict (Revision.fromUlid 101) (Revision.fromUlid 101)))) ∈
          p.trace := by
  have conflicts : (behindRun.bind fun run => run.1[1]?.bind StoreResult.conflict?) =
      some (Revision.fromUlid 101, Revision.fromUlid 101) := by decide +kernel
  obtain ⟨⟨results, w'⟩, run, second⟩ := Option.bind_eq_some_iff.mp conflicts
  obtain ⟨r, isSecond, conflict⟩ := Option.bind_eq_some_iff.mp second
  obtain ⟨p, reach, _, returned⟩ := reachable_inOrder _ run
  have last := returned 1 _ r rfl isSecond
  rw [StoreResult.conflict?_eq_some conflict] at last
  exact ⟨p, reach, last⟩

/-- The next revision of the instance lies above what it expects, where that is the current one. -/
def clockAhead (w : Cluster Unit Unit) (i : Nat) (id : AggregateId) (options : PublishOptions) : Bool :=
  match options.expectedRevision, (w.generators i).outcome ((w.generators i).drawn + 1) with
  | some e, .ok v => decide (e = Revision.zero ∨ coalesceMax (w.databases ()).events id ≠ e.text ∨
      e < Revision.fromUlid v)
  | _, _ => true

/-- Answers no attempt of an instance whose clock is behind. -/
def answeredAhead (c : Nat) (call : Nat × StoreCall) (op : StoreOp Unit Unit)
    (w : Cluster Unit Unit) : Option (op.Res × Cluster Unit Unit) :=
  match op with
  | .tryPublishOnce conn id options events =>
      if clockAhead w call.1 id options then
        answeredBy Prod.fst { database := () } c call (.tryPublishOnce conn id options events) w
      else none
  | op => answeredBy Prod.fst { database := () } c call op w

theorem answeredAhead_permitted (c : Nat) (call : Nat × StoreCall) (w : Cluster Unit Unit)
    (op : StoreOp Unit Unit) (r : op.Res) (w' : Cluster Unit Unit)
    (h : answeredAhead c call op w = some (r, w')) :
    Pool.PermittedStep (S := sharedCluster) (FreshRevisionAhead Prod.fst) c call w op r w' := by
  cases op with
  | tryPublishOnce conn id options events =>
      simp only [answeredAhead] at h
      split at h
      · next ahead =>
          refine ⟨⟨{ database := () }, h⟩, fun e u v expected nonzero current mints => ?_⟩
          simp only [clockAhead, expected, mints.revision, decide_eq_true_iff] at ahead
          rcases ahead with zero | stale | above
          · exact absurd zero nonzero
          · exact absurd current stale
          · exact above
      · cases h
  | _ =>
      simp only [answeredAhead] at h
      exact ⟨⟨{ database := () }, h⟩, trivial⟩

/-- The first instance publishes, and again on what it published; the second expects the revision
that is no longer current. -/
def staleCalls : List (Nat × StoreCall) :=
  [sharedPublish 0 {}, sharedPublish 0 { expectedRevision := some (Revision.fromUlid 101) },
    sharedPublish 1 { expectedRevision := some (Revision.fromUlid 101) }]

def staleRun : Option (List StoreResult × Cluster Unit Unit) :=
  Pool.runInOrder (S := sharedCluster) answeredAhead 0 staleCalls (Cluster.initial skewedGenerators)

def StoreResult.publishedAt? : StoreResult → Option Revision
  | .published (.ok changeset) => some changeset.revision
  | _ => none

/-- The publish that expects the current revision succeeds, the stale one is a real conflict. -/
theorem real_conflict_when_stale : ∃ p : Pool sharedCluster,
    (∃ r, .returned 1 (sharedPublish 0 { expectedRevision := some (Revision.fromUlid 101) }) r ∈ p.trace ∧
      r.publishedAt? = some (Revision.fromUlid 103)) ∧
    .returned 2 (sharedPublish 1 { expectedRevision := some (Revision.fromUlid 101) })
        (.published (.error (.revisionConflict (Revision.fromUlid 101) (Revision.fromUlid 103)))) ∈ p.trace ∧
      Revision.fromUlid 103 ≠ Revision.fromUlid 101 ∧ ∃ q : Pool sharedCluster, q.trace <+: p.trace ∧
        Revision.fromUlid 103 = lastRevision (streamOf (committedBatches () q.trace) sharedId) := by
  have results : (staleRun.bind fun run => (run.1[1]?.bind StoreResult.publishedAt?).bind fun revision =>
      (run.1[2]?.bind StoreResult.conflict?).map fun conflict => (revision, conflict)) =
      some (Revision.fromUlid 103, Revision.fromUlid 101, Revision.fromUlid 103) := by decide +kernel
  obtain ⟨⟨results, w'⟩, run, rest⟩ := Option.bind_eq_some_iff.mp results
  obtain ⟨revision, second, rest⟩ := Option.bind_eq_some_iff.mp rest
  obtain ⟨conflict, third, same⟩ := Option.map_eq_some_iff.mp rest
  obtain ⟨rfl, rfl⟩ := Prod.mk.inj same
  obtain ⟨r, isSecond, published⟩ := Option.bind_eq_some_iff.mp second
  obtain ⟨r', isThird, conflicts⟩ := Option.bind_eq_some_iff.mp third
  obtain ⟨p, reach, _, _, _, returned⟩ := Pool.ReachableBy.runInOrder (p := Pool.initial _)
    (fun _ _ _ => ⟨trivial, fun _ => trivial⟩) answeredAhead_permitted (fun _ _ _ _ => trivial)
    .start (fun c' _ event member => by cases member) run
  have last := returned 2 _ r' rfl isThird
  rw [StoreResult.conflict?_eq_some conflicts] at last
  obtain ⟨_, different, q, conn, before, current⟩ := reported_conflicts_are_real.1 p reach _ _ _ _ _
    (Revision.fromUlid 101) _ _ (by simp) rfl last
  exact ⟨p, ⟨r, returned 1 _ r rfl isSecond, published⟩, last, different, q, before, current⟩

end Behind
end WeeEvents.Sqlite
