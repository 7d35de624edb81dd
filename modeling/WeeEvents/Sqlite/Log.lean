import WeeEvents.Sqlite.Publish
import WeeEvents.EventLog

/-!
# The table as a log

The abstract view of an `events` table that only the store writes: one log of
`(aggregate, event)` entries in commit order, in which the revisions of each
aggregate are strictly increasing and never zero. On such a table the queries
answer in log order, whatever clocks the writers have.
-/
namespace WeeEvents.Sqlite
open Foundation

/-- The table holds exactly the log, and the log is ordered per aggregate. -/
structure Logged (t : EventsTable) (log : EventLog) : Prop where
  rows : t.rows = log.map fun entry => Row.store entry.1 entry.2
  increasing : ∀ id, Increasing RecordedEvent.revision (log.stream id)
  nonzero : ∀ entry ∈ log, entry.2.revision ≠ Revision.zero

theorem Logged.empty : Logged EventsTable.empty [] :=
  ⟨rfl, fun _ => Increasing.nil, by simp⟩

variable {t : EventsTable} {log : EventLog} {id : AggregateId}

theorem Logged.rowsOf (h : Logged t log) : t.rowsOf id = (log.stream id).map (Row.store id) := by
  rw [EventsTable.rowsOf, h.rows, EventLog.stream, List.filter_map, List.map_map]
  have pick : ((fun row : Row => row.belongsTo id) ∘ fun entry : AggregateId × RecordedEvent =>
      Row.store entry.1 entry.2) = (·.1 == id) := by
    funext entry
    rw [Bool.eq_iff_iff, Function.comp_apply, Row.belongsTo_iff, Row.aggregateId_store, beq_iff_eq]
  rw [pick]
  apply List.map_congr_left
  intro entry member
  rw [Function.comp_apply, ← beq_iff_eq.mp (List.mem_filter.mp member).2]

theorem Logged.stream_ne_zero (h : Logged t log) :
    ∀ event ∈ log.stream id, event.revision ≠ Revision.zero :=
  fun event member => h.nonzero (id, event) (EventLog.mem_stream.mp member)

theorem Logged.maxRevision (h : Logged t log) :
    t.maxRevision id = (log.stream id).getLast?.map (·.revision.text) := by
  have texts : Increasing (fun event : RecordedEvent => event.revision.text) (log.stream id) :=
    h.increasing id
  rw [EventsTable.maxRevision, h.rowsOf, List.map_map, ← texts.max?_map]
  rfl

theorem Logged.coalesceMax (h : Logged t log) :
    Sqlite.coalesceMax t id = (lastRevision (log.stream id)).text := by
  rw [Sqlite.coalesceMax, h.maxRevision, lastRevision]
  cases (log.stream id).getLast? <;> rfl

theorem Logged.selectOrdered (h : Logged t log) :
    t.selectOrdered id = (log.stream id).map (Row.store id) := by
  rw [EventsTable.selectOrdered, h.rowsOf]
  apply List.Pairwise.insertionSort_eq
  exact List.pairwise_map.mpr ((h.increasing id).imp fun lt => le_of_lt lt)

/-- `load` sorts by revision and still returns the commit order. -/
theorem Logged.load [UlidParser] (h : Logged t log) :
    loadFromConnection t id = .ok (Aggregate.fromEvents id (log.stream id)) := by
  rw [loadFromConnection, h.selectOrdered, loadRows_store]

theorem Logged.last_eq_zero_iff (h : Logged t log) :
    lastRevision (log.stream id) = Revision.zero ↔ log.stream id = [] := by
  constructor
  · intro zero
    rcases List.eq_nil_or_concat (log.stream id) with nil | ⟨front, event, split⟩
    · exact nil
    · rw [List.concat_eq_append] at split
      have member : event ∈ log.stream id := by rw [split]; simp
      have last := h.stream_ne_zero event member
      rw [split, lastRevision_append_singleton] at zero
      exact absurd zero last
  · intro nil
    rw [nil, lastRevision_nil]

theorem Logged.le_last (h : Logged t log) :
    ∀ event ∈ log.stream id, event.revision ≤ lastRevision (log.stream id) := by
  intro event member
  cases last : (log.stream id).getLast? with
  | none => rw [List.getLast?_eq_none_iff.mp last] at member; cases member
  | some final =>
      rw [lastRevision, last]
      exact (h.increasing id).le_last last event member

/-! ### What the guards mean on a log -/

theorem Logged.sqlInitial_iff (h : Logged t log) :
    sqlInitial t id = true ↔ log.stream id = [] := by
  rw [Sqlite.sqlInitial_iff, h.rowsOf, List.map_eq_nil_iff]

theorem Logged.sqlAdvance_iff (h : Logged t log) {r : Revision} :
    sqlAdvance t id r.text = true ↔ lastRevision (log.stream id) < r := by
  rw [Sqlite.sqlAdvance_iff, h.coalesceMax, Revision.text_lt]

/-- For a non-zero expectation the exact mode holds when the stream ends at it
and the fresh revision lies above it: two conditions, reported as one. -/
theorem Logged.sqlExact_iff (h : Logged t log) {r expected : Revision}
    (nonzero : expected ≠ Revision.zero) :
    sqlExact t id r.text expected = true ↔
      lastRevision (log.stream id) = expected ∧ expected < r := by
  rw [Sqlite.sqlExact_iff, h.coalesceMax, h.maxRevision, lastRevision, Revision.text_lt]
  cases last : (log.stream id).getLast? with
  | none => simp [nonzero.symm]
  | some final =>
      simp only [Option.map_some, Option.some.injEq, ← Revision.ext_iff]
      constructor
      · rintro ⟨lt, rfl⟩
        exact ⟨rfl, lt⟩
      · rintro ⟨rfl, lt⟩
        exact ⟨lt, rfl⟩

theorem Logged.publishGuard_above (h : Logged t log) {options : PublishOptions} {index : Nat}
    {r : Revision} (guard : publishGuard t id options index r = true) :
    ∀ event ∈ log.stream id, event.revision < r := by
  have advance : sqlAdvance t id r.text = true → ∀ event ∈ log.stream id, event.revision < r :=
    fun above event member => (h.le_last event member).trans_lt (h.sqlAdvance_iff.mp above)
  unfold publishGuard at guard
  split at guard
  · split at guard
    · rw [h.sqlInitial_iff.mp guard]
      intro event member
      cases member
    · exact advance (Bool.and_eq_true _ _ ▸ guard).1
  · exact advance guard

theorem Logged.publishGuard_expected (h : Logged t log) {options : PublishOptions} {r e : Revision}
    (guard : publishGuard t id options 0 r = true) (expected : options.expectedRevision = some e) :
    lastRevision (log.stream id) = e := by
  simp only [publishGuard, expected] at guard
  split at guard
  · next zero =>
      rw [Revision.isZero_iff.mp zero]
      exact h.last_eq_zero_iff.mpr (h.sqlInitial_iff.mp guard)
  · next nonzero =>
      rw [Bool.not_eq_true, ← Bool.not_eq_true, Revision.isZero_iff] at nonzero
      exact ((h.sqlExact_iff nonzero).mp guard).1

/-- When the expectation is the current revision, only the fresh one can be at fault. -/
theorem Logged.publishGuard_current (h : Logged t log) {options : PublishOptions} {r e : Revision}
    (expected : options.expectedRevision = some e) (current : lastRevision (log.stream id) = e) :
    publishGuard t id options 0 r = true ↔ e = Revision.zero ∨ e < r := by
  simp only [publishGuard, expected]
  split
  · next zero =>
      rw [Revision.isZero_iff] at zero
      simp only [zero, true_or, iff_true]
      exact h.sqlInitial_iff.mpr (h.last_eq_zero_iff.mp (current.trans zero))
  · next nonzero =>
      rw [Revision.isZero_iff] at nonzero
      rw [h.sqlExact_iff nonzero]
      simp [nonzero, current]

/-- Adding the next event of an aggregate extends the log by one entry. -/
theorem Logged.snoc (h : Logged t log) {event : RecordedEvent} {t' : EventsTable}
    (rows : t'.rows = t.rows ++ [Row.store id event])
    (above : ∀ earlier ∈ log.stream id, earlier.revision < event.revision)
    (nonzero : event.revision ≠ Revision.zero) : Logged t' (log ++ entries id [event]) := by
  refine ⟨?_, ?_, ?_⟩
  · rw [rows, h.rows, List.map_append]
    rfl
  · intro other
    rw [EventLog.stream_append]
    by_cases same : other = id
    · subst same
      rw [stream_entries]
      exact (h.increasing other).concat above
    · rw [stream_entries_ne same, List.append_nil]
      exact h.increasing other
  · intro entry member
    rcases List.mem_append.mp member with old | new
    · exact h.nonzero entry old
    · rw [List.mem_singleton.mp new]
      exact nonzero

/-! ### The events of one attempt -/

theorem Logged.reportConflict [UlidParser] (h : Logged t log) {options : PublishOptions}
    {attempted e : Revision} {failure : Option LibsqlError} {c : PublishConflict}
    (expected : options.expectedRevision = some e)
    (reported : Sqlite.reportConflict t id options attempted failure = .conflict c) :
    c.expected = e ∧ c.actual = lastRevision (log.stream id) := by
  unfold Sqlite.reportConflict currentRevision at reported
  cases failure with
  | some e => cases reported
  | none =>
      rw [h.maxRevision] at reported
      cases last : (log.stream id).getLast? with
      | none =>
          rw [last] at reported
          cases reported
          simp [expected, lastRevision, last]
      | some final =>
          simp only [last, Option.map_some, Revision.fromStr_text] at reported
          cases reported
          simp [expected, lastRevision, last]

theorem publishEvents_ok [UlidParser] {failures : AttemptFailures} {options : PublishOptions}
    {raws : List RawEvent} {index : Nat} {g g' : Generator} {tx tx' : EventsTable}
    {recorded : List RecordedEvent}
    (h : publishEvents failures id options index g tx raws = (.ok (recorded, tx'), g')) :
    g' = g.advance (2 * raws.length) ∧ tx'.rows = tx.rows ++ recorded.map (Row.store id) ∧
      List.Forall₂ (fun event raw => event.Carries options.metadata raw) recorded raws := by
  induction raws generalizing index g tx recorded with
  | nil =>
      cases h
      simp
  | cons raw raws ih =>
      rw [publishEvents] at h
      split at h
      · cases h
      · next event tx₁ g₁ first =>
          split at h
          · cases h
          · next rest tx₂ g₂ later =>
              cases h
              obtain ⟨u, v, _, rfl, rfl, _, _, rows⟩ := publishEvent_ok first
              obtain ⟨drawn, more, carries⟩ := ih later
              refine ⟨?_, ?_, .cons ⟨rfl, rfl, rfl⟩ carries⟩
              · rw [drawn, Generator.advance_advance, List.length_cons]
                congr 1
                omega
              · rw [more, rows, List.append_assoc, List.map_cons, List.singleton_append]

/-- On a log, every event of an attempt goes above the stream it extends. -/
theorem Logged.publishEvents [UlidParser] {failures : AttemptFailures} {options : PublishOptions}
    {raws : List RawEvent} {index : Nat} {g g' : Generator} {t' : EventsTable}
    {recorded : List RecordedEvent} (logged : Logged t log)
    (h : Sqlite.publishEvents failures id options index g t raws = (.ok (recorded, t'), g')) :
    Logged t' (log ++ entries id recorded) := by
  induction raws generalizing index g t recorded log with
  | nil =>
      cases h
      simpa [entries] using logged
  | cons raw raws ih =>
      rw [Sqlite.publishEvents] at h
      split at h
      · cases h
      · next event tx₁ g₁ first =>
          split at h
          · cases h
          · next rest tx₂ g₂ later =>
              cases h
              obtain ⟨u, v, mints, _, rfl, guard, _, rows⟩ := publishEvent_ok first
              have grown := logged.snoc rows (logged.publishGuard_above guard)
                mints.revision_ne_zero
              have done := ih grown later
              rwa [List.append_assoc, entries, entries, ← List.map_append] at done

/-- The caller's expectation is checked by the first event of the attempt. -/
theorem Logged.publishEvents_expected [UlidParser] {failures : AttemptFailures}
    {options : PublishOptions} {raws : List RawEvent} {g g' : Generator} {t' : EventsTable}
    {recorded : List RecordedEvent} {e : Revision} (logged : Logged t log) (nonempty : raws ≠ [])
    (h : Sqlite.publishEvents failures id options 0 g t raws = (.ok (recorded, t'), g'))
    (expected : options.expectedRevision = some e) : lastRevision (log.stream id) = e := by
  cases raws with
  | nil => exact absurd rfl nonempty
  | cons raw raws =>
      rw [Sqlite.publishEvents] at h
      split at h
      · cases h
      · next event tx₁ g₁ first =>
          obtain ⟨u, v, _, _, _, guard, _⟩ := publishEvent_ok first
          exact logged.publishGuard_expected guard expected

/-- Behind the first event of an attempt the fresh revisions only grow, so no
later event meets a row above it: an attempt conflicts at its first event. -/
theorem Logged.publishEvents_later [UlidParser] {failures : AttemptFailures}
    {options : PublishOptions} {raws : List RawEvent} {index : Nat} {g g' : Generator}
    {c : PublishConflict} (logged : Logged t log)
    (ahead : ∀ v, g.outcome (g.drawn + 1) = .ok v → lastRevision (log.stream id) < Revision.fromUlid v) :
    Sqlite.publishEvents failures id options (index + 1) g t raws ≠ (.error (.conflict c), g') := by
  induction raws generalizing index g t log with
  | nil => simp [Sqlite.publishEvents]
  | cons raw raws ih =>
      intro h
      rw [Sqlite.publishEvents] at h
      split at h
      · next e g₁ first =>
          cases h
          obtain ⟨u, v, mints, _, blocked, _⟩ := publishEvent_conflict first
          have passes := logged.sqlAdvance_iff.mpr (ahead v mints.revision)
          simp only [publishGuard, passes, Bool.true_eq_false] at blocked
      · next event tx₁ g₁ first =>
          obtain ⟨u, v, mints, rfl, rfl, guard, _, rows⟩ := publishEvent_ok first
          have grown := logged.snoc rows (logged.publishGuard_above guard) mints.revision_ne_zero
          split at h
          · next e g₂ later =>
              cases h
              refine ih grown ?_ later
              intro w next
              rw [EventLog.stream_append, stream_entries, lastRevision_append_singleton]
              exact Revision.fromUlid_lt.mpr
                (g.increasing _ _ v w (by simp) mints.revision next)
          · cases h

/-! ### One transaction -/

section Attempt

variable [UlidParser] {failures : AttemptFailures} {options : PublishOptions}
  {raws : List RawEvent} {g g' : Generator} {t' : EventsTable} {cs : ChangeSet}

theorem tryPublishOnce_ok (h : tryPublishOnce failures g t id options raws = (.ok cs, g', t')) :
    ∃ recorded, Sqlite.publishEvents failures id options 0 g t raws = (.ok (recorded, t'), g') ∧
      cs = ⟨id, lastRevision recorded, recorded⟩ := by
  unfold tryPublishOnce at h
  split at h
  · cases h
  · split at h
    · cases h
    · next recorded tx g₁ inserted =>
        split at h
        · cases h
        · cases h
          exact ⟨recorded, inserted, rfl⟩

/-- A transaction that fails, at whatever step, leaves the table as it was. -/
theorem tryPublishOnce_error {e : PublishAttemptError}
    (h : tryPublishOnce failures g t id options raws = (.error e, g', t')) : t' = t := by
  unfold tryPublishOnce at h
  split at h
  · cases h; rfl
  · split at h
    · cases h; rfl
    · split at h <;> cases h
      rfl

/-- A transaction that commits adds one row per event and returns those events. -/
theorem tryPublishOnce_rows (h : tryPublishOnce failures g t id options raws = (.ok cs, g', t')) :
    t'.rows = t.rows ++ cs.events.map (Row.store id) ∧
      List.Forall₂ (fun event raw => event.Carries options.metadata raw) cs.events raws ∧
      cs.aggregateId = id ∧ cs.revision = lastRevision cs.events := by
  obtain ⟨recorded, inserted, rfl⟩ := tryPublishOnce_ok h
  obtain ⟨_, rows, carries⟩ := publishEvents_ok inserted
  exact ⟨rows, carries, rfl, rfl⟩

theorem Logged.tryPublishOnce (logged : Logged t log)
    (h : Sqlite.tryPublishOnce failures g t id options raws = (.ok cs, g', t')) :
    Logged t' (log ++ entries id cs.events) := by
  obtain ⟨recorded, inserted, rfl⟩ := tryPublishOnce_ok h
  exact logged.publishEvents inserted

theorem Logged.tryPublishOnce_expected (logged : Logged t log) (nonempty : raws ≠ [])
    {e : Revision} (expected : options.expectedRevision = some e)
    (h : Sqlite.tryPublishOnce failures g t id options raws = (.ok cs, g', t')) :
    lastRevision (log.stream id) = e := by
  obtain ⟨recorded, inserted, rfl⟩ := tryPublishOnce_ok h
  exact logged.publishEvents_expected nonempty inserted expected

/-- An attempt on a log reports a conflict at its first event or not at all. -/
theorem Logged.tryPublishOnce_first (logged : Logged t log) {c : PublishConflict}
    (h : Sqlite.tryPublishOnce failures g t id options raws = (.error (.conflict c), g', t')) :
    failures.begin = none ∧ failures.insert 0 = none ∧ ∃ u v, g.Mints u v ∧
      publishGuard t id options 0 (Revision.fromUlid v) = false ∧
      Sqlite.reportConflict t id options (Revision.fromUlid v) failures.currentRevision =
        .conflict c := by
  unfold Sqlite.tryPublishOnce at h
  split at h
  · cases h
  · next begun =>
      split at h
      · next x g₁ inserted =>
          cases h
          cases raws with
          | nil => cases inserted
          | cons raw raws =>
              rw [Sqlite.publishEvents] at inserted
              split at inserted
              · next e' g₁ first =>
                  cases inserted
                  obtain ⟨u, v, mints, ran, blocked, reported⟩ := publishEvent_conflict first
                  exact ⟨begun, ran, u, v, mints, blocked, reported⟩
              · next event tx₁ g₁ first =>
                  obtain ⟨u, v, mints, rfl, rfl, guard, _, rows⟩ := publishEvent_ok first
                  have grown := logged.snoc rows (logged.publishGuard_above guard)
                    mints.revision_ne_zero
                  split at inserted
                  · next e' g₂ later =>
                      cases inserted
                      refine absurd later (grown.publishEvents_later ?_)
                      intro w next
                      rw [EventLog.stream_append, stream_entries, lastRevision_append_singleton]
                      exact Revision.fromUlid_lt.mpr
                        (g.increasing _ _ v w (by simp) mints.revision next)
                  · cases inserted
      · split at h <;> cases h

/-- The conflict an attempt reports: the caller's expectation and the current
revision. The two agree only where the fresh revision does not lie above it. -/
theorem Logged.tryPublishOnce_conflict (logged : Logged t log) {c : PublishConflict}
    {e : Revision} (expected : options.expectedRevision = some e)
    (h : Sqlite.tryPublishOnce failures g t id options raws = (.error (.conflict c), g', t')) :
    c.expected = e ∧ c.actual = lastRevision (log.stream id) ∧
      (c.actual = e → e ≠ Revision.zero ∧
        ∃ u v, g.Mints u v ∧ Revision.fromUlid v ≤ e) := by
  obtain ⟨_, _, u, v, mints, blocked, reported⟩ := logged.tryPublishOnce_first h
  obtain ⟨same, actual⟩ := logged.reportConflict expected reported
  refine ⟨same, actual, fun agree => ?_⟩
  rw [actual] at agree
  have stuck := (logged.publishGuard_current (r := Revision.fromUlid v) expected agree).not
  rw [blocked, Bool.false_eq_true, not_false_eq_true, true_iff, not_or, not_lt] at stuck
  exact ⟨stuck.1, u, v, mints, stuck.2⟩

end Attempt
end WeeEvents.Sqlite
