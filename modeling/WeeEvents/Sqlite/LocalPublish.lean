import WeeEvents.Sqlite.Conflicts
import WeeEvents.Sqlite.LocalEnumeration
import WeeEvents.Memory.Calls

/-!
# Calls on local files where nothing fails

One log for all files of a root: each database holds its part of it, and the
generator lies above all of it. A call of the store is then one step on that log,
unless a draw of the generator is refused.
-/
namespace WeeEvents.Sqlite
open Foundation
open Memory (Above Minted)

/-! ### One attempt -/

section Attempt

variable {t : EventsTable} {log : EventLog} {id : AggregateId} {options : PublishOptions}

/-- Everything in the table lies below what the generator will hand out. -/
def BelowGenerator (g : Generator) (t : EventsTable) : Prop :=
  ∀ row ∈ t.rows, Above g row.eventId ∧ Above g row.revision

theorem above_minted {g : Generator} {u v : Ulid} (mints : g.Mints u v) :
    Above (g.advance 2) u.toText ∧ Above (g.advance 2) v.toText := by
  constructor
  · intro i w le drawn
    have lt : g.drawn < i := by
      simp only [Generator.drawn_advance] at le
      omega
    exact Ulid.toText_strictMono (g.increasing _ _ u w lt mints.eventId drawn)
  · intro i w le drawn
    have lt : g.drawn + 1 < i := by
      simp only [Generator.drawn_advance] at le
      omega
    exact Ulid.toText_strictMono (g.increasing _ _ v w lt mints.revision drawn)

/-- A row with fresh texts breaks no constraint. -/
theorem BelowGenerator.admits {g : Generator} (below : BelowGenerator g t) {u v : Ulid}
    (mints : g.Mints u v) (raw : RawEvent) (metadata : EventMetadata) :
    t.Admits (Row.store id (raw.record metadata ⟨u.toText⟩ (Revision.fromUlid v))) := by
  refine ⟨u.length_toText, v.length_toText, ?_, ?_⟩
  · intro member
    obtain ⟨row, isRow, same⟩ := List.mem_map.mp member
    have lt : row.eventId < u.toText := (below row isRow).1 _ u le_rfl mints.eventId
    exact lt.ne same
  · intro member
    obtain ⟨row, isRow, same⟩ := List.mem_map.mp member
    have lt : row.revision < v.toText := (below row isRow).2 _ v (by omega) mints.revision
    exact lt.ne (congrArg (fun key => key.2.2) same)

theorem Logged.last_lt_minted {g : Generator} (logged : Logged t log) (below : BelowGenerator g t)
    {u v : Ulid} (mints : g.Mints u v) : lastRevision (log.stream id) < Revision.fromUlid v := by
  cases last : (log.stream id).getLast? with
  | none =>
      rw [lastRevision, last]
      exact lt_of_le_of_ne (Revision.zero_le _) mints.revision_ne_zero.symm
  | some event =>
      have member := EventLog.mem_stream.mp (List.mem_of_getLast? last)
      have isRow : Row.store id event ∈ t.rows := by
        rw [logged.rows]
        exact List.mem_map_of_mem member
      have lt : event.revision.text < v.toText := (below _ isRow).2 _ v (by omega) mints.revision
      rw [lastRevision, last]
      exact Revision.text_lt.mp lt

theorem BelowGenerator.grow {g : Generator} (below : BelowGenerator g t) {u v : Ulid}
    (mints : g.Mints u v) {raw : RawEvent} {metadata : EventMetadata} {t' : EventsTable}
    (rows : t'.rows = t.rows ++ [Row.store id (raw.record metadata ⟨u.toText⟩ (Revision.fromUlid v))]) :
    BelowGenerator (g.advance 2) t' := by
  intro row isRow
  rw [rows] at isRow
  rcases List.mem_append.mp isRow with old | new
  · obtain ⟨eventId, revision⟩ := below row old
    exact ⟨eventId.advance 2, revision.advance 2⟩
  · rw [List.mem_singleton.mp new]
    exact above_minted mints

variable [UlidParser]

/-- Where no statement fails, an event that is not written was refused its ids, or conflicts. -/
theorem publishEvent_refused {g g' : Generator} {index : Nat} {raw : RawEvent} {e : SqliteError}
    (logged : Logged t log) (below : BelowGenerator g t)
    (h : publishEvent {} id options index g t raw = (.error (.store e), g')) :
    ¬ g'.Unrefused ∧ ∃ message, e = .internal message := by
  unfold publishEvent generateUlid Generator.generate at h
  simp only [executePublishStatement_eq] at h
  cases hu : g.outcome g.drawn with
  | error refused =>
      simp only [hu, Prod.mk.injEq, Except.error.injEq, PublishAttemptError.store.injEq] at h
      obtain ⟨rfl, rfl⟩ := h
      refine ⟨fun all => ?_, _, rfl⟩
      have isOk := all g.drawn (Nat.lt_succ_self _)
      rw [hu] at isOk
      cases isOk
  | ok u =>
      cases hv : g.outcome (g.drawn + 1) with
      | error refused =>
          simp only [hu, hv, Prod.mk.injEq, Except.error.injEq, PublishAttemptError.store.injEq] at h
          obtain ⟨rfl, rfl⟩ := h
          refine ⟨fun all => ?_, _, rfl⟩
          have isOk := all (g.drawn + 1) (Nat.lt_succ_self _)
          rw [hv] at isOk
          cases isOk
      | ok v =>
          simp only [hu, hv] at h
          have admits : t.Admits (Row.store id (raw.record options.metadata ⟨u.toText⟩
              (Revision.fromUlid v))) := below.admits ⟨hu, hv⟩ raw options.metadata
          cases hg : publishGuard t id options index (Revision.fromUlid v) with
          | true =>
              simp only [hg, insertWhere, if_true] at h
              rw [show PublishRow.event _ = raw.record options.metadata ⟨u.toText⟩
                (Revision.fromUlid v) from rfl, EventsTable.insert_of_admits admits] at h
              cases h
          | false =>
              obtain ⟨c, reported⟩ := logged.reportConflict_none id options (Revision.fromUlid v)
              simp only [hg, insertWhere, Bool.false_eq_true, if_false, reported] at h
              cases h

theorem publishEvents_refused {g g' : Generator} {index : Nat} {raws : List RawEvent} {e : SqliteError}
    (logged : Logged t log) (below : BelowGenerator g t)
    (h : publishEvents {} id options index g t raws = (.error (.store e), g')) :
    ¬ g'.Unrefused ∧ ∃ message, e = .internal message := by
  induction raws generalizing index g t log with
  | nil => cases h
  | cons raw raws ih =>
      rw [publishEvents] at h
      split at h
      · next first =>
          cases h
          exact publishEvent_refused logged below first
      · next event tx g₁ first =>
          obtain ⟨u, v, mints, rfl, rfl, guard, -, rows⟩ := publishEvent_ok first
          have grown := logged.snoc rows (logged.publishGuard_above guard) mints.revision_ne_zero
          split at h
          · next later =>
              cases h
              exact ih grown (below.grow mints rows) later
          · cases h

/-- The ids of an attempt are minted as the in-memory store mints them. -/
theorem publishEvents_mints {failures : AttemptFailures} {g g' : Generator} {index : Nat}
    {raws : List RawEvent} {recorded : List RecordedEvent} {t' : EventsTable}
    (h : publishEvents failures id options index g t raws = (.ok (recorded, t'), g')) :
    ∃ minted, Memory.mintEventIds raws.length g = (.ok minted, g') ∧
      recorded = Memory.recordAll options.metadata raws minted := by
  induction raws generalizing index g t recorded with
  | nil =>
      cases h
      exact ⟨[], rfl, rfl⟩
  | cons raw raws ih =>
      rw [publishEvents] at h
      split at h
      · cases h
      · next event tx g₁ first =>
          obtain ⟨u, v, mints, rfl, rfl, -⟩ := publishEvent_ok first
          split at h
          · cases h
          · next rest t₂ g₂ later =>
              cases h
              obtain ⟨minted, mint, rfl⟩ := ih later
              refine ⟨(⟨u.toText⟩, Revision.fromUlid v) :: minted, ?_, rfl⟩
              rw [List.length_cons, Memory.mintEventIds_step, mints.eventId, mints.revision]
              simp only [mint]
              rfl

theorem publishEvent_generator (failures : AttemptFailures) (id : AggregateId) (options : PublishOptions)
    (index : Nat) (g : Generator) (tx : EventsTable) (raw : RawEvent) :
    ∃ n, (publishEvent failures id options index g tx raw).2 = g.advance n := by
  unfold publishEvent generateUlid Generator.generate
  cases g.outcome g.drawn with
  | error e => exact ⟨1, rfl⟩
  | ok u =>
      simp only
      cases g.outcome (g.drawn + 1) with
      | error e => exact ⟨2, rfl⟩
      | ok v =>
          refine ⟨2, ?_⟩
          dsimp only
          split
          · rfl
          · split
            · rfl
            · rfl
            · rfl

theorem publishEvents_generator (failures : AttemptFailures) (id : AggregateId) (options : PublishOptions)
    (index : Nat) (g : Generator) (tx : EventsTable) (raws : List RawEvent) :
    ∃ n, (publishEvents failures id options index g tx raws).2 = g.advance n := by
  induction raws generalizing index g tx with
  | nil => exact ⟨0, rfl⟩
  | cons raw raws ih =>
      obtain ⟨n, first⟩ := publishEvent_generator failures id options index g tx raw
      rw [publishEvents]
      split
      · next e g₁ failed =>
          rw [failed] at first
          exact ⟨n, first⟩
      · next event tx₁ g₁ written =>
          rw [written] at first
          obtain ⟨m, later⟩ := ih (index + 1) g₁ tx₁
          rw [show g₁ = g.advance n from first, Generator.advance_advance] at later
          rw [show g₁ = g.advance n from first]
          refine ⟨n + m, ?_⟩
          split
          · next failed =>
              rw [failed] at later
              exact later
          · next written =>
              rw [written] at later
              exact later

theorem tryPublishOnce_generator (failures : AttemptFailures) (g : Generator) (t : EventsTable)
    (id : AggregateId) (options : PublishOptions) (raws : List RawEvent) :
    ∃ n, (tryPublishOnce failures g t id options raws).2.1 = g.advance n := by
  obtain ⟨n, drawn⟩ := publishEvents_generator failures id options 0 g t raws
  unfold tryPublishOnce
  split
  · exact ⟨0, rfl⟩
  · split
    · next failed =>
        rw [failed] at drawn
        exact ⟨n, drawn⟩
    · next written =>
        rw [written] at drawn
        split
        · exact ⟨n, drawn⟩
        · exact ⟨n, drawn⟩

/-- One attempt where no statement fails, on a table that holds the log. -/
inductive AttemptStep (t : EventsTable) (log : EventLog) (g : Generator) (id : AggregateId)
    (options : PublishOptions) (raws : List RawEvent) :
    Except PublishAttemptError ChangeSet → Generator → EventsTable → Prop
  | appended {minted : List (EventId × Revision)} {g' : Generator} {t' : EventsTable} :
      Memory.mintEventIds raws.length g = (.ok minted, g') →
      (∀ expected, options.expectedRevision = some expected →
        expected = lastRevision (log.stream id)) →
      Logged t' (log ++ entries id (Memory.recordAll options.metadata raws minted)) →
      AttemptStep t log g id options raws
        (.ok ⟨id, lastRevision (Memory.recordAll options.metadata raws minted),
          Memory.recordAll options.metadata raws minted⟩) g' t'
  | conflict {c : PublishConflict} {n : Nat} : options.expectedRevision = some c.expected →
      c.actual = lastRevision (log.stream id) → c.expected ≠ c.actual →
      AttemptStep t log g id options raws (.error (.conflict c)) (g.advance n) t
  | refused {message : String} {g' : Generator} : ¬ g'.Unrefused →
      AttemptStep t log g id options raws (.error (.store (.internal message))) g' t

/-- The next revision lies above everything in the table, so only the expectation can fail. -/
theorem attemptStep {g g' : Generator} {raws : List RawEvent} {t' : EventsTable}
    {r : Except PublishAttemptError ChangeSet} (logged : Logged t log) (below : BelowGenerator g t)
    (nonempty : raws ≠ []) (once : tryPublishOnce {} g t id options raws = (r, g', t')) :
    AttemptStep t log g id options raws r g' t' := by
  have ahead : ∀ u v, g.Mints u v → lastRevision (log.stream id) < Revision.fromUlid v :=
    fun u v => logged.last_lt_minted below
  match r with
  | .ok changeset =>
      obtain ⟨recorded, written, rfl⟩ := tryPublishOnce_ok once
      obtain ⟨minted, mint, rfl⟩ := publishEvents_mints written
      exact .appended mint (fun expected expecting =>
        (logged.publishEvents_expected nonempty written expecting).symm) (logged.publishEvents written)
  | .error (.conflict c) =>
      obtain ⟨-, -, u, v, mints, blocked, -⟩ := logged.tryPublishOnce_first once
      obtain ⟨n, drawn⟩ := tryPublishOnce_generator {} g t id options raws
      rw [once] at drawn
      obtain rfl : t' = t := tryPublishOnce_error once
      obtain rfl : g' = g.advance n := drawn
      cases expecting : options.expectedRevision with
      | none =>
          have passes := logged.sqlAdvance_iff.mpr (ahead u v mints)
          simp only [publishGuard, expecting, passes, Bool.true_eq_false] at blocked
      | some e =>
          obtain ⟨rfl, actual, stuck⟩ := logged.tryPublishOnce_conflict expecting once
          refine .conflict expecting actual fun same => ?_
          obtain ⟨-, u, v, mints, behind⟩ := stuck same.symm
          rw [same, actual] at behind
          exact absurd (ahead u v mints) behind.not_gt
  | .error (.store e) =>
      unfold tryPublishOnce at once
      dsimp only at once
      split at once
      · next failed =>
          cases once
          obtain ⟨refused, message, rfl⟩ := publishEvents_refused logged below failed
          exact .refused refused
      · cases once

end Attempt

/-! ### One log for all files -/

section Disk

variable {P : Type} [Base32Nopad] {strategy : LocalPartitionStrategy P LocalPath}
  (router : Router strategy) {s s' : LocalDisk P} {log : EventLog} {id : AggregateId}

/-- The part of the log that goes to one file. -/
def fileLog (path : LocalPath) (log : EventLog) : EventLog :=
  log.filter fun entry => router.file entry.1 = path

theorem stream_fileLog : (fileLog router (router.file id) log).stream id = log.stream id := by
  rw [EventLog.stream, EventLog.stream, fileLog, List.filter_filter]
  congr 1
  apply List.filter_congr
  rintro ⟨other, event⟩ _
  by_cases same : other = id
  · simp [same]
  · simp [same]

theorem fileLog_append (path : LocalPath) (more : EventLog) :
    fileLog router path (log ++ more) = fileLog router path log ++ fileLog router path more :=
  List.filter_append ..

theorem fileLog_entries (events : List RecordedEvent) :
    fileLog router (router.file id) (entries id events) = entries id events := by
  rw [fileLog, entries, List.filter_eq_self]
  intro entry member
  obtain ⟨event, -, rfl⟩ := List.mem_map.mp member
  exact decide_eq_true rfl

theorem fileLog_entries_ne {path : LocalPath} (other : path ≠ router.file id)
    (events : List RecordedEvent) : fileLog router path (entries id events) = [] := by
  rw [fileLog, entries, List.filter_eq_nil_iff]
  intro entry member
  obtain ⟨event, -, rfl⟩ := List.mem_map.mp member
  simpa using other.symm

/-- The files hold the log, each its part, and the generator minted it. -/
structure OnDisk (s : LocalDisk P) (log : EventLog) : Prop where
  sound : Sound router (fun _ => True) s
  logged : ∀ path, Logged (s.cluster.databases path).events (fileLog router path log)
  minted : Minted ⟨log, s.cluster.generators 0⟩

variable {router}

theorem OnDisk.fresh (generator : Generator) : OnDisk router (.fresh generator) [] :=
  ⟨.fresh generator, fun _ => Logged.empty, Memory.minted_new generator⟩

theorem OnDisk.undisturbed (disk : OnDisk router s log) (same : Undisturbed s s')
    (sound : Sound router (fun _ => True) s') : OnDisk router s' log := by
  refine ⟨sound, fun path => ?_, ?_⟩
  · rw [same.events]
    exact disk.logged path
  · rw [same.generators]
    exact disk.minted

theorem OnDisk.below (disk : OnDisk router s log) (path : LocalPath) :
    BelowGenerator (s.cluster.generators 0) (s.cluster.databases path).events := by
  intro row isRow
  rw [(disk.logged path).rows] at isRow
  obtain ⟨entry, member, rfl⟩ := List.mem_map.mp isRow
  have inside : entry ∈ log := List.mem_of_mem_filter member
  constructor
  · refine disk.minted.below _ (List.mem_flatMap.mpr ⟨entry, inside, ?_⟩)
    exact List.mem_cons_self
  · refine disk.minted.below _ (List.mem_flatMap.mpr ⟨entry, inside, ?_⟩)
    exact List.mem_cons_of_mem _ List.mem_cons_self

/-- An aggregate whose file is not there has no events. -/
theorem OnDisk.stream_absent (disk : OnDisk router s log) (absent : router.file id ∉ s.files) :
    log.stream id = [] := by
  rw [List.eq_nil_iff_forall_not_mem]
  intro event member
  have inFile : (id, event) ∈ fileLog router (router.file id) log :=
    List.mem_filter.mpr ⟨EventLog.mem_stream.mp member, decide_eq_true rfl⟩
  have isRow : Row.store id event ∈ (s.cluster.databases (router.file id)).events.rows := by
    rw [(disk.logged _).rows]
    exact List.mem_map_of_mem inFile
  exact absent (disk.sound.rows _ _ isRow).2.2

end Disk

/-! ### A load -/

section Calls

variable {P : Type} [DecidableEq P] [UlidParser] [Base32Nopad]
  {strategy : LocalPartitionStrategy P LocalPath} {router : Router strategy} (listing : Listing)
  {s s' : LocalDisk P} {log : EventLog}

theorem serve_load {id : AggregateId}
    (logged : Logged (s.cluster.databases (router.file id)).events (fileLog router (router.file id) log)) :
    s.serve listing (.loadFromConnection (router.file id) id) =
      some (.ok (Aggregate.fromEvents id (log.stream id)), s) := by
  have loaded : loadFromConnection (s.cluster.databases (router.file id)).events id = _ := logged.load
  rw [stream_fileLog] at loaded
  simp only [LocalDisk.serve, Sqlite.serve, LocalDisk.outside, loaded, Option.map_some]
  rfl

theorem calm_load (disk : OnDisk router s log) (id : AggregateId) :
    ∃ s', s.run listing ((localStore strategy).call (.load id)) =
        some (.loaded (.ok (Aggregate.fromEvents id (log.stream id))), s') ∧ OnDisk router s' log := by
  obtain ⟨s', opened, same, -⟩ := calm_openPartitionIfExists listing id disk.sound trivial
  have opens : (localDiscipline router id).Obeys (fun _ _ => True)
      (openPartitionIfExists (localPartitionCatalog strategy) (router.route id)) [] :=
    local_openPartitionIfExists.mono fun _ _ _ => trivial
  have sound : Sound router (fun _ => True) s' :=
    Handles.runs disk.sound trivial opens (LocalDisk.run_runs opened)
  have loads : s.run listing (loadAggregate strategy.toPartitionStrategy (localPartitionCatalog strategy)
      id) = some (.ok (Aggregate.fromEvents id (log.stream id)), s') := by
    have routed : s.run listing (partitionFor strategy.toPartitionStrategy id : StoreProgram P LocalPath P) =
        some (.ok (router.route id), s) := by
      rw [partitionFor, router.routes]
      rfl
    rw [loadAggregate, LocalDisk.run, Program.eval_andThen routed, Program.eval_andThen opened]
    by_cases there : router.file id ∈ s.files
    · rw [if_pos there]
      have logged := disk.logged (router.file id)
      rw [← same.events] at logged
      exact Program.eval_call (serve_load listing logged)
    · rw [if_neg there, disk.stream_absent there]
      rfl
  have called : s.run listing (load strategy.toPartitionStrategy (localPartitionCatalog strategy) id) =
      some (.ok (Aggregate.fromEvents id (log.stream id)), s') := by
    rw [load, LocalDisk.run, Program.eval_bind loads]
    rfl
  refine ⟨s', ?_, disk.undisturbed same sound⟩
  have calls : (localStore strategy).call (.load id) =
      (load strategy.toPartitionStrategy (localPartitionCatalog strategy) id).bind fun r =>
        .ret (.loaded r) := rfl
  rw [calls, LocalDisk.run, Program.eval_bind called]
  rfl

/-! ### A publish -/

/-- What a publish returns for its attempt. -/
def attemptResult : Except PublishAttemptError ChangeSet → Except SqliteError ChangeSet
  | .ok changeset => .ok changeset
  | .error (.conflict c) => .error (.weeEvents (.revisionConflict c.expected c.actual))
  | .error (.store e) => .error e

variable {id : AggregateId} {options : PublishOptions} {raws : List RawEvent} {conn : LocalPath}

omit [Base32Nopad] in
/-- One attempt that is not on a busy database, and conflicts only with an expectation, is the whole
publish on its connection. -/
theorem calm_publishWithConnection (nonempty : raws ≠ []) {r : Except PublishAttemptError ChangeSet}
    (attempted : s.serve listing (.tryPublishOnce conn id options raws) = some (r, s'))
    (expecting : ∀ c, r = .error (.conflict c) → options.expectedRevision.isSome)
    (idle : ∀ e, r = .error (.store e) → isSqliteBusy e = false) :
    s.run listing (publishWithConnection id options raws conn) = some (attemptResult r, s') := by
  have once : (retryWhileBusy id options raws conn maxBusyRetries r : AttemptProgram P LocalPath) =
      .ret r := by
    cases r with
    | ok changeset => rfl
    | error failed =>
        cases failed with
        | conflict c => rfl
        | store e =>
            have calm := idle e rfl
            simp [retryWhileBusy, maxBusyRetries, calm]
  have rounds : ∀ canAutoRetry maxAttempts remaining,
      (canAutoRetry = true → ∀ c, r ≠ .error (.conflict c)) →
      s.run listing (retryOnConflict id options raws conn canAutoRetry maxAttempts (remaining + 1) none) =
        some (attemptResult r, s') := by
    intro canAutoRetry maxAttempts remaining noRetry
    rw [retryOnConflict, LocalDisk.run_call attempted, once, Program.bind_ret]
    cases r with
    | ok changeset => rfl
    | error failed =>
        cases failed with
        | store e => rfl
        | conflict c =>
            cases canAutoRetry with
            | true => exact absurd rfl (noRetry rfl c)
            | false => rfl
  have appends : raws.isEmpty = false := by simpa using nonempty
  have noRetry : options.expectedRevision.isNone = true → ∀ c, r ≠ .error (.conflict c) := by
    intro none c conflict
    have some := expecting c conflict
    rw [Option.isNone_iff_eq_none.mp none] at some
    cases some
  rw [publishWithConnection, appends, if_neg Bool.false_ne_true]
  dsimp only
  split
  · exact rounds _ _ 4 noRetry
  · exact rounds _ _ 0 noRetry

/-- The partition is opened, the publish made on its connection, and its outcome returned. -/
theorem calm_publishCall {out : Except SqliteError ChangeSet} {s₁ : LocalDisk P}
    (opened : s.run listing (ensurePartitionOpen (localPartitionCatalog strategy) (router.route id)) =
      some (.ok (router.file id), s₁))
    (published : s₁.run listing (publishWithConnection id options raws (router.file id)) = some (out, s'))
    (ready : ∀ e, out = .error e → isLazyCreatePartitionNotReady e = false) :
    s.run listing ((localStore strategy).call (.publish id options raws)) =
      some (.published (out.mapError SqliteError.into), s') := by
  have routed : s.run listing (partitionFor strategy.toPartitionStrategy id : StoreProgram P LocalPath P) =
      some (.ok (router.route id), s) := by
    rw [partitionFor, router.routes]
    rfl
  have pass : s.run listing ((ensurePartitionOpen (localPartitionCatalog strategy)
      (router.route id)).andThen fun conn => publishWithConnection id options raws conn) =
        some (out, s') := by
    rw [LocalDisk.run, Program.eval_andThen opened]
    exact published
  have done : s.run listing (publishToAggregate id options raws strategy.toPartitionStrategy
      (localPartitionCatalog strategy)) = some (out, s') := by
    rw [publishToAggregate, LocalDisk.run, Program.eval_andThen routed]
    rw [lazyCreatePartitionReadyAttempts, retryUntilReady, Program.eval_bind pass]
    cases out with
    | ok changeset => rfl
    | error e =>
        simp only [ready e rfl, Bool.false_and, Bool.false_eq_true, if_false]
        rfl
  have called : s.run listing (publish strategy.toPartitionStrategy (localPartitionCatalog strategy) id
      options raws) = some (out.mapError SqliteError.into, s') := by
    rw [publish, LocalDisk.run, Program.eval_bind done]
    rfl
  have calls : (localStore strategy).call (.publish id options raws) =
      (publish strategy.toPartitionStrategy (localPartitionCatalog strategy) id options raws).bind fun r =>
        .ret (.published r) := rfl
  rw [calls, LocalDisk.run, Program.eval_bind called]
  rfl

/-- The files after an attempt on one of them. -/
def LocalDisk.afterAttempt (s : LocalDisk P) (conn : LocalPath) (generator : Generator) (table : EventsTable) :
    LocalDisk P :=
  { s with cluster := { s.cluster with
      generators := Function.update s.cluster.generators 0 generator
      databases := Function.update s.cluster.databases conn
        { s.cluster.databases conn with events := table } } }

omit [DecidableEq P] [UlidParser] [Base32Nopad] in
@[simp] theorem LocalDisk.afterAttempt_databases (s : LocalDisk P) (generator : Generator)
    (table : EventsTable) : (s.afterAttempt conn generator table).cluster.databases =
      Function.update s.cluster.databases conn { s.cluster.databases conn with events := table } := rfl

omit [DecidableEq P] [UlidParser] [Base32Nopad] in
@[simp] theorem LocalDisk.afterAttempt_generator (s : LocalDisk P) (generator : Generator)
    (table : EventsTable) : (s.afterAttempt conn generator table).cluster.generators 0 = generator := by
  show Function.update s.cluster.generators 0 generator 0 = generator
  exact Function.update_self ..

omit [Base32Nopad] in
theorem LocalDisk.serve_attempt {r : Except PublishAttemptError ChangeSet} {generator : Generator}
    {table : EventsTable} (once : tryPublishOnce {} (s.cluster.generators 0)
      (s.cluster.databases conn).events id options raws = (r, generator, table)) :
    s.serve listing (.tryPublishOnce conn id options raws) =
      some (r, s.afterAttempt conn generator table) := by
  simp only [LocalDisk.serve, Sqlite.serve, LocalDisk.outside, once, Option.map_some]
  rfl

/-- A call that is made where everything is in its place leaves it so. -/
theorem sound_publish {ids : AggregateId → Prop} (sound : Sound router ids s) (inside : ids id)
    {result : EventStoreResult}
    (ran : s.run listing ((localStore strategy).call (.publish id options raws)) = some (result, s')) :
    Sound router ids s' := by
  have publishes : (localDiscipline router id).Obeys (fun _ _ => True)
      (publish strategy.toPartitionStrategy (localPartitionCatalog strategy) id options raws) [] :=
    (local_publishToAggregate options raws).bind fun _ _ _ => trivial
  have calls : (localDiscipline router id).Obeys (fun _ _ => True)
      ((localStore strategy).call (.publish id options raws)) [] := publishes.bind fun _ _ _ => trivial
  exact Handles.runs sound inside calls (LocalDisk.run_runs ran)

omit [DecidableEq P] [UlidParser] in
/-- The log and the files after an attempt that wrote these events, or none. -/
theorem OnDisk.afterAttempt (disk : OnDisk router s log) {generator : Generator} {table : EventsTable}
    {events : List RecordedEvent}
    (logged : Logged table (fileLog router (router.file id) log ++ entries id events))
    (minted : Minted ⟨log ++ entries id events, generator⟩)
    (sound : Sound router (fun _ => True) (s.afterAttempt (router.file id) generator table)) :
    OnDisk router (s.afterAttempt (router.file id) generator table) (log ++ entries id events) := by
  refine ⟨sound, fun path => ?_, ?_⟩
  · rw [fileLog_append]
    by_cases same : path = router.file id
    · subst same
      rw [fileLog_entries, LocalDisk.afterAttempt_databases, Function.update_self]
      exact logged
    · rw [fileLog_entries_ne router same, List.append_nil, LocalDisk.afterAttempt_databases,
        Function.update_of_ne same]
      exact disk.logged path
  · rw [LocalDisk.afterAttempt_generator]
    exact minted

/-- A publish where nothing fails is a step on the log, or a draw was refused. -/
theorem calm_publish (disk : OnDisk router s log) (id : AggregateId) (options : PublishOptions)
    (raws : List RawEvent) :
    ∃ result s', s.run listing ((localStore strategy).call (.publish id options raws)) =
        some (result, s') ∧
      ((s'.cluster.generators 0).Unrefused →
        ∃ log', CallStep log (.publish id options raws) result log' ∧ OnDisk router s' log') := by
  obtain ⟨s₁, opened, same, -⟩ := calm_ensurePartitionOpen listing id disk.sound trivial
  have opens : (localDiscipline router id).Obeys (fun _ _ => True)
      (ensurePartitionOpen (localPartitionCatalog strategy) (router.route id)) [] :=
    local_ensurePartitionOpen.mono fun _ _ _ => trivial
  have sound₁ : Sound router (fun _ => True) s₁ :=
    Handles.runs disk.sound trivial opens (LocalDisk.run_runs opened)
  have disk₁ := disk.undisturbed same sound₁
  have logged := disk₁.logged (router.file id)
  by_cases empty : raws = []
  · subst empty
    have published : s₁.run listing (publishWithConnection id options [] (router.file id)) =
        some (.ok ⟨id, lastRevision (log.stream id), []⟩, s₁) :=
      Program.eval_call (serve_load listing logged)
    refine ⟨_, s₁, calm_publishCall listing opened published fun e failed => ?_, fun _ => ?_⟩
    · cases failed
    · exact ⟨log, .nothing, disk₁⟩
  · cases once : tryPublishOnce {} (s₁.cluster.generators 0)
        (s₁.cluster.databases (router.file id)).events id options raws with
    | mk r rest =>
        obtain ⟨generator, table⟩ := rest
        have attempted := LocalDisk.serve_attempt listing once
        have step := attemptStep logged (disk₁.below _) empty once
        have ran : s.run listing ((localStore strategy).call (.publish id options raws)) =
            some (.published ((attemptResult r).mapError SqliteError.into),
              s₁.afterAttempt (router.file id) generator table) := by
          refine calm_publishCall listing opened (calm_publishWithConnection listing empty attempted ?_ ?_) ?_
          · rintro c rfl
            cases step with
            | conflict expecting _ _ => rw [expecting, Option.isSome_some]
          · rintro e rfl
            cases step with
            | refused _ => rfl
          · intro e failed
            cases step with
            | appended _ _ _ => cases failed
            | conflict _ _ _ =>
                cases failed
                rfl
            | refused _ =>
                cases failed
                rfl
        have sound := sound_publish listing disk.sound trivial ran
        refine ⟨_, _, ran, fun unrefused => ?_⟩
        rw [LocalDisk.afterAttempt_generator] at unrefused
        cases step with
        | @appended minted _ _ mint fits grown =>
            rw [stream_fileLog] at fits
            have more : Minted ⟨log ++ entries id (Memory.recordAll options.metadata raws minted),
                generator⟩ := disk₁.minted.append mint
            exact ⟨_, .appended empty fits (Memory.recordAll_carries (Memory.mintEventIds_ok mint).1)
              more.rising, disk₁.afterAttempt grown more sound⟩
        | @conflict c n expecting actual stale =>
            rw [stream_fileLog] at actual
            have kept : Logged (s₁.cluster.databases (router.file id)).events
                (fileLog router (router.file id) log ++ entries id []) := by
              rw [entries, List.map_nil, List.append_nil]
              exact logged
            have minted : Minted ⟨log ++ entries id [], (s₁.cluster.generators 0).advance n⟩ := by
              rw [entries, List.map_nil, List.append_nil]
              exact disk₁.minted.refused n
            have disk' := disk₁.afterAttempt kept minted sound
            rw [entries, List.map_nil, List.append_nil] at disk'
            refine ⟨log, ?_, disk'⟩
            rw [actual] at stale
            have conflict := CallStep.conflict empty expecting stale
            rw [← actual] at conflict
            exact conflict
        | refused refused => exact absurd unrefused refused

end Calls
end WeeEvents.Sqlite
