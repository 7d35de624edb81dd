import WeeEvents.AtomicStore
import WeeEvents.Foundation.OrderMatching

/-!
# Two stores, call by call

A store that takes one call at a time and whose generator refuses nothing: its
answers are determined by its log, but for the ids and revisions it mints. Two
such stores that are given the same calls, revisions translated from one to the
other, answer alike.
-/
namespace WeeEvents
open Foundation

/-- No draw so far was refused. -/
def Generator.Unrefused (g : Generator) : Prop := ∀ i < g.drawn, (g.outcome i).isOk

instance (g : Generator) : Decidable g.Unrefused :=
  inferInstanceAs (Decidable (∀ i, i < g.drawn → (g.outcome i).isOk))

/-! ### One call -/

/-- All revisions of a log, zero first. -/
def EventLog.revisions (log : EventLog) : List Revision := Revision.zero :: log.map (·.2.revision)

/-- Every revision lies above all earlier ones, whatever the aggregate, and above zero. -/
def EventLog.Rising (log : EventLog) : Prop := log.revisions.Pairwise (· < ·)

/-- One call of a store alone, and its log before and after. -/
inductive CallStep : EventLog → EventStoreCall → EventStoreResult → EventLog → Prop
  | loaded {log : EventLog} {id : AggregateId} :
      CallStep log (.load id) (.loaded (.ok (Aggregate.fromEvents id (log.stream id)))) log
  | nothing {log : EventLog} {id : AggregateId} {options : PublishOptions} :
      CallStep log (.publish id options [])
        (.published (.ok ⟨id, lastRevision (log.stream id), []⟩)) log
  | conflict {log : EventLog} {id : AggregateId} {options : PublishOptions} {raws : List RawEvent}
      {expected : Revision} : raws ≠ [] → options.expectedRevision = some expected →
      expected ≠ lastRevision (log.stream id) →
      CallStep log (.publish id options raws)
        (.published (.error (.revisionConflict expected (lastRevision (log.stream id))))) log
  | appended {log : EventLog} {id : AggregateId} {options : PublishOptions} {raws : List RawEvent}
      {events : List RecordedEvent} : raws ≠ [] →
      (∀ expected, options.expectedRevision = some expected →
        expected = lastRevision (log.stream id)) →
      List.Forall₂ (fun event raw => event.Carries options.metadata raw) events raws →
      EventLog.Rising (log ++ entries id events) →
      CallStep log (.publish id options raws) (.published (.ok ⟨id, lastRevision events, events⟩))
        (log ++ entries id events)

/-- The entries that a result says were recorded. -/
def resultEntries : EventStoreResult → EventLog
  | .published (.ok changeset) => entries changeset.aggregateId changeset.events
  | _ => []

theorem CallStep.log_eq {log log' : EventLog} {call : EventStoreCall} {result : EventStoreResult}
    (step : CallStep log call result log') : log' = log ++ resultEntries result := by
  cases step with
  | loaded => exact (List.append_nil log).symm
  | nothing => exact (List.append_nil log).symm
  | conflict _ _ _ => exact (List.append_nil log).symm
  | appended _ _ _ _ => rfl

/-! ### Two logs -/

/-- The same but for id and revision: type, encoding, bytes, causation and correlation. -/
structure SameEvent (a b : RecordedEvent) : Prop where
  eventType : a.eventType = b.eventType
  data : a.data = b.data
  metadata : a.metadata = b.metadata

def SameEntry (a b : AggregateId × RecordedEvent) : Prop := a.1 = b.1 ∧ SameEvent a.2 b.2

/-- The revisions at the same places of two logs, zero with zero. -/
def revisionPairs (log log' : EventLog) : List (Revision × Revision) := log.revisions.zip log'.revisions

theorem orderMatching_revisionPairs {log log' : EventLog} (rising : log.Rising)
    (rising' : log'.Rising) : OrderMatching (revisionPairs log log') :=
  .zip rising rising'

/-- Matching events at matching revisions. -/
def Matching (pairs : List (Revision × Revision)) (a b : RecordedEvent) : Prop :=
  SameEvent a b ∧ (a.revision, b.revision) ∈ pairs

section Logs

variable {log log' : EventLog}

theorem matching_entries (same : List.Forall₂ SameEntry log log') :
    List.Forall₂ (fun a b => a.1 = b.1 ∧ Matching (revisionPairs log log') a.2 b.2) log log' := by
  have within : ∀ pairs, (∀ pair ∈ (log.map (·.2.revision)).zip (log'.map (·.2.revision)), pair ∈ pairs) →
      List.Forall₂ (fun a b => a.1 = b.1 ∧ Matching pairs a.2 b.2) log log' := by
    intro pairs
    induction same with
    | nil => intro _; exact .nil
    | cons first _ ih =>
        intro inside
        refine .cons ⟨first.1, first.2, inside _ List.mem_cons_self⟩ (ih ?_)
        intro pair member
        exact inside pair (List.mem_cons_of_mem _ member)
  exact within _ fun pair member => List.mem_cons_of_mem _ member

theorem matching_streams (same : List.Forall₂ SameEntry log log') (id : AggregateId) :
    List.Forall₂ (Matching (revisionPairs log log')) (log.stream id) (log'.stream id) := by
  have each := matching_entries same
  clear same
  generalize revisionPairs log log' = pairs at each
  induction each with
  | nil => exact .nil
  | @cons a b log log' first _ ih =>
      obtain ⟨key, matching⟩ := first
      unfold EventLog.stream at ih ⊢
      rw [List.filter_cons, List.filter_cons, ← key]
      split
      · exact .cons matching ih
      · exact ih

/-- Streams that match end at matching revisions. -/
theorem last_mem_pairs {pairs : List (Revision × Revision)} {events events' : List RecordedEvent}
    (zero : (Revision.zero, Revision.zero) ∈ pairs)
    (matching : List.Forall₂ (Matching pairs) events events') :
    (lastRevision events, lastRevision events') ∈ pairs := by
  induction matching with
  | nil => exact zero
  | @cons a b rest rest' first later ih =>
      cases later with
      | nil => exact first.2
      | @cons c d rest rest' _ _ =>
          have tail : ∀ (e e' : RecordedEvent) (l : List RecordedEvent),
              lastRevision (e :: e' :: l) = lastRevision (e' :: l) := by
            intro e e' l
            rw [lastRevision, lastRevision, List.getLast?_cons_cons]
          rw [tail, tail]
          exact ih

theorem zero_mem_pairs (log log' : EventLog) : (Revision.zero, Revision.zero) ∈ revisionPairs log log' :=
  List.mem_cons_self

theorem last_streams (same : List.Forall₂ SameEntry log log') (id : AggregateId) :
    (lastRevision (log.stream id), lastRevision (log'.stream id)) ∈ revisionPairs log log' :=
  last_mem_pairs (zero_mem_pairs log log') (matching_streams same id)

end Logs

/-! ### Two calls and two results -/

/-- A revision and its translation: matched ones, or ones that neither log has. -/
inductive TranslatedRevision (pairs : List (Revision × Revision)) : Revision → Revision → Prop
  | matched {r r' : Revision} : (r, r') ∈ pairs → TranslatedRevision pairs r r'
  | foreign {r r' : Revision} : r ∉ pairs.map Prod.fst → r' ∉ pairs.map Prod.snd →
      TranslatedRevision pairs r r'

/-- The same call, its expected revision translated. -/
inductive TranslatedCall (pairs : List (Revision × Revision)) : EventStoreCall → EventStoreCall → Prop
  | load {id : AggregateId} : TranslatedCall pairs (.load id) (.load id)
  | publish {id : AggregateId} {options : PublishOptions} {expected : Option Revision}
      {raws : List RawEvent} :
      Option.Rel (TranslatedRevision pairs) options.expectedRevision expected →
      TranslatedCall pairs (.publish id options raws)
        (.publish id { options with expectedRevision := expected } raws)

/-- The same kind of result, with matching events and matching revisions. -/
inductive ResultsAgree (pairs : List (Revision × Revision)) : EventStoreResult → EventStoreResult → Prop
  | loaded {id : AggregateId} {events events' : List RecordedEvent} {r r' : Revision} :
      List.Forall₂ (Matching pairs) events events' → (r, r') ∈ pairs →
      ResultsAgree pairs (.loaded (.ok ⟨id, events, r⟩)) (.loaded (.ok ⟨id, events', r'⟩))
  | published {id : AggregateId} {events events' : List RecordedEvent} {r r' : Revision} :
      List.Forall₂ (Matching pairs) events events' → (r, r') ∈ pairs →
      ResultsAgree pairs (.published (.ok ⟨id, r, events⟩)) (.published (.ok ⟨id, r', events'⟩))
  | conflict {expected expected' actual actual' : Revision} :
      TranslatedRevision pairs expected expected' → (actual, actual') ∈ pairs →
      ResultsAgree pairs (.published (.error (.revisionConflict expected actual)))
        (.published (.error (.revisionConflict expected' actual')))

/-- As many revisions are left over on one side as on the other, so each has a translation. -/
theorem translation_exists {log log' : EventLog} (rising : log.Rising)
    (length : log.length = log'.length) (r : Revision) :
    ∃ r', TranslatedRevision (revisionPairs log log') r r' := by
  have lengths : log.revisions.length = log'.revisions.length := by
    simp [EventLog.revisions, length]
  have left : (revisionPairs log log').map Prod.fst = log.revisions := List.map_fst_zip lengths.le
  have right : (revisionPairs log log').map Prod.snd = log'.revisions := List.map_snd_zip lengths.ge
  by_cases known : r ∈ (revisionPairs log log').map Prod.fst
  · obtain ⟨⟨_, r'⟩, member, rfl⟩ := List.mem_map.mp known
    exact ⟨r', .matched member⟩
  · by_cases all : ∀ r', r' ∈ log'.revisions
    · have ulids : Function.Surjective Revision.fromUlid := by
        intro revision
        obtain ⟨u, same⟩ := revision.eq_fromUlid
        exact ⟨u, same.symm⟩
      have finite : Finite Revision := Finite.of_surjective _ ulids
      have := Fintype.ofFinite Revision
      have covered : Fintype.card Revision ≤ log.revisions.toFinset.card := by
        rw [List.toFinset_card_of_nodup (rising.imp fun lt => lt.ne), lengths]
        have within : (Finset.univ : Finset Revision) ⊆ log'.revisions.toFinset :=
          fun revision _ => List.mem_toFinset.mpr (all revision)
        exact (Finset.card_le_card within).trans log'.revisions.toFinset_card_le
      have every := (Finset.card_eq_iff_eq_univ _).mp (le_antisymm (Finset.card_le_univ _) covered)
      have member : r ∈ log.revisions := by
        rw [← List.mem_toFinset, every]
        exact Finset.mem_univ r
      rw [left] at known
      exact absurd member known
    · obtain ⟨r', absent⟩ := not_forall.mp all
      rw [← right] at absent
      exact ⟨r', .foreign known absent⟩

theorem translatedCall_exists {log log' : EventLog} (rising : log.Rising)
    (length : log.length = log'.length) (call : EventStoreCall) :
    ∃ call', TranslatedCall (revisionPairs log log') call call' := by
  cases call with
  | load id => exact ⟨_, .load⟩
  | publish id options raws =>
      have expected : ∃ expected, Option.Rel (TranslatedRevision (revisionPairs log log'))
          options.expectedRevision expected := by
        cases options.expectedRevision with
        | none => exact ⟨none, .none⟩
        | some r =>
            obtain ⟨r', translated⟩ := translation_exists rising length r
            exact ⟨some r', .some translated⟩
      obtain ⟨expected, translated⟩ := expected
      exact ⟨_, .publish translated⟩

/-- An expectation of a matched revision holds on both sides or on neither. -/
theorem TranslatedRevision.eq_iff {pairs : List (Revision × Revision)} {r r' last last' : Revision}
    (matching : OrderMatching pairs) (translated : TranslatedRevision pairs r r')
    (current : (last, last') ∈ pairs) : r = last ↔ r' = last' := by
  cases translated with
  | matched member => exact matching.eq_iff member current
  | foreign absent absent' =>
      have left : r ≠ last := by
        rintro rfl
        exact absent (List.mem_map_of_mem current)
      have right : r' ≠ last' := by
        rintro rfl
        exact absent' (List.mem_map_of_mem current)
      rw [iff_false_left left]
      exact right

section Agree

variable {log log' next next' : EventLog} {call call' : EventStoreCall} {result result' : EventStoreResult}

/-- What was appended on both sides matches. -/
theorem sameEntry_appended {id : AggregateId} {metadata : EventMetadata} {raws : List RawEvent}
    {events events' : List RecordedEvent}
    (carries : List.Forall₂ (fun event raw => event.Carries metadata raw) events raws)
    (carries' : List.Forall₂ (fun event raw => event.Carries metadata raw) events' raws) :
    List.Forall₂ SameEntry (entries id events) (entries id events') := by
  induction carries generalizing events' with
  | nil =>
      cases carries'
      exact .nil
  | cons first _ ih =>
      cases carries' with
      | cons first' later' =>
          obtain ⟨type, data, metadata⟩ := first
          obtain ⟨type', data', metadata'⟩ := first'
          exact .cons ⟨rfl, type.trans type'.symm, data.trans data'.symm, metadata.trans metadata'.symm⟩
            (ih later')

/-- A batch recorded on both sides. -/
theorem agree_appended (same : List.Forall₂ SameEntry log log') {id : AggregateId}
    {metadata : EventMetadata} {raws : List RawEvent} {events events' : List RecordedEvent}
    (nonempty : raws ≠ [])
    (carries : List.Forall₂ (fun event raw => event.Carries metadata raw) events raws)
    (carries' : List.Forall₂ (fun event raw => event.Carries metadata raw) events' raws) :
    ResultsAgree (revisionPairs (log ++ entries id events) (log' ++ entries id events'))
        (.published (.ok ⟨id, lastRevision events, events⟩))
        (.published (.ok ⟨id, lastRevision events', events'⟩)) ∧
      List.Forall₂ SameEntry (log ++ entries id events) (log' ++ entries id events') := by
  have grown : List.Forall₂ SameEntry (log ++ entries id events) (log' ++ entries id events') :=
    List.rel_append same (sameEntry_appended carries carries')
  refine ⟨.published ?_ ?_, grown⟩
  · have later := List.forall₂_drop log.length (matching_entries grown)
    rw [List.drop_left, same.length_eq, List.drop_left] at later
    unfold entries at later
    rw [List.forall₂_map_left_iff, List.forall₂_map_right_iff] at later
    exact later.imp fun _ _ entry => entry.2
  · have recorded : ∀ {events : List RecordedEvent},
        List.Forall₂ (fun event raw => event.Carries metadata raw) events raws → events ≠ [] := by
      rintro events carries rfl
      exact nonempty (List.forall₂_nil_left_iff.mp carries)
    have last := last_streams grown id
    rw [EventLog.stream_append, EventLog.stream_append, stream_entries, stream_entries,
      lastRevision_append (recorded carries), lastRevision_append (recorded carries')] at last
    exact last

/-- Stores with matching logs answer translated calls alike, and their logs match afterwards. -/
theorem CallStep.agree (rising : log.Rising) (rising' : log'.Rising)
    (same : List.Forall₂ SameEntry log log') (translated : TranslatedCall (revisionPairs log log') call call')
    (step : CallStep log call result next) (step' : CallStep log' call' result' next') :
    ResultsAgree (revisionPairs next next') result result' ∧ List.Forall₂ SameEntry next next' := by
  have matching := orderMatching_revisionPairs rising rising'
  cases translated with
  | load =>
      cases step
      cases step'
      exact ⟨.loaded (matching_streams same _) (last_streams same _), same⟩
  | @publish id options expected raws translation =>
      have current := last_streams same id
      cases step with
      | nothing =>
          cases step' with
          | nothing => exact ⟨.published .nil current, same⟩
          | conflict nonempty _ _ => exact absurd rfl nonempty
          | appended nonempty _ _ _ => exact absurd rfl nonempty
      | conflict nonempty expecting stale =>
          cases step' with
          | nothing => exact absurd rfl nonempty
          | conflict _ expecting' _ =>
              obtain rfl : expected = _ := expecting'
              rw [expecting] at translation
              cases translation with
              | some revisions => exact ⟨.conflict revisions current, same⟩
          | appended _ fits _ _ =>
              rw [expecting] at translation
              cases translation with
              | some revisions =>
                  have holds := fits _ rfl
                  exact absurd ((revisions.eq_iff matching current).mpr holds) stale
      | appended nonempty fits carries grown =>
          cases step' with
          | nothing => exact absurd rfl nonempty
          | conflict _ expecting' stale' =>
              obtain rfl : expected = _ := expecting'
              cases h : options.expectedRevision with
              | none =>
                  rw [h] at translation
                  cases translation
              | some e =>
                  rw [h] at translation
                  cases translation with
                  | some revisions =>
                      exact absurd ((revisions.eq_iff matching current).mp (fits e h)) stale'
          | appended _ _ carries' _ => exact agree_appended same nonempty carries carries'

end Agree
end WeeEvents
