import WeeEvents.Projection.Snapshots

/-!
# Projections catch up

Publishers, projections, rebuilds and deletes in any interleaving, others publishing
all the while. A projection or a rebuild that succeeds leaves a document at least as
new as its aggregate was when the task began, and nothing but a delete takes that
back. So a document that was refreshed after every publish of its aggregate renders
the whole stream.
-/
namespace WeeEvents.Projection
open Foundation

variable {S : Type} [Inhabited S] [Serialize S] {renderer : Renderer S DecodeError}
  {collection : String} {type : AggregateType} {id : AggregateId} {began : EventLog}
  {c c' : Nat} {call call' : ProjectionCall collection type}
  {w w' : ProjectionWorld} {trace : List (ProjectionEvent collection type)}
  {event : ProjectionEvent collection type}

/-! ### What refreshes a document -/

/-- The task brings the document of an aggregate up to date. -/
def ProjectionCall.Refreshes (id : AggregateId) : ProjectionCall collection type → Prop
  | applyProjection changeset _ => changeset.aggregateId = id
  | rebuildProjection => True
  | _ => False

/-- The event appended these events to the stream of an aggregate. -/
def Appended (id : AggregateId) (events : List RecordedEvent) : ProjectionEvent collection type → Prop
  | .performed _ _ (.store (.publish id' _ _)) (.ok changeset) =>
      id' = id ∧ changeset.events = events ∧ events ≠ []
  | _ => False

theorem Appended.nonempty {events : List RecordedEvent} (h : Appended id events event) : events ≠ [] := by
  unfold Appended at h
  split at h
  · exact h.2.2
  · cases h

/-- A task that succeeds has left the aggregates it refreshes at the revisions it loaded. -/
def ProjectionCall.refreshed (call : ProjectionCall collection type) (k : ProjectionKnowledge)
    (result : ProjectionResult) : Prop :=
  call.done k result ∧ ∀ changeset ofType, call = .applyProjection changeset ofType →
    result = .projected (.ok ()) → changeset.aggregateId ∈ k.current

/-- Streams only grow, by what the event appended, and rows only move up, but for deletes. -/
structure Onward (w w' : ProjectionWorld) (event : ProjectionEvent collection type) : Prop where
  grows : ∀ id, w.log.stream id <+: w'.log.stream id
  still : ∀ id, (∀ events, ¬ Appended id events event) → w'.log.stream id = w.log.stream id
  appended : ∀ id events, Appended id events event → events <:+: w'.log.stream id
  rows : ∀ key row, ¬ Deletes key event → w.documents (collection, key) = some row →
    ∃ row', w'.documents (collection, key) = some row' ∧ row.revision ≤ row'.revision

theorem Onward.idle (quiet : ∀ id events, ¬ Appended id events event) : Onward w w event where
  grows _ := List.prefix_refl _
  still _ _ := rfl
  appended id events appended := absurd appended (quiet id events)
  rows _ row _ found := ⟨row, found, le_rfl⟩

theorem Onward.invoked : Onward w w (.invoked c call) := .idle fun _ _ appended => appended

theorem Onward.returned {result : ProjectionResult} : Onward w w (.returned c call result) :=
  .idle fun _ _ appended => appended

section Step

variable [SerdeJson] [UlidParser] {op : ProjectionOp} {r : op.Res}

theorem ProjectionStep.onward (step : ProjectionStep w op r w') :
    Onward w w' (.performed c call op r) where
  grows id := step.stream_grows id
  still id quiet := by
    cases step with
    | @store storeCall r log stored =>
        cases storeCall with
        | load id' => rw [stored.load_log]
        | publish id' options raws =>
            cases r with
            | error e => rw [stored.publish_error]
            | ok changeset =>
                rw [stored.publish_ok.1, EventLog.stream_append]
                by_cases same : id' = id
                · subst same
                  have none : changeset.events = [] := by
                    by_contra some
                    exact quiet changeset.events ⟨rfl, rfl, some⟩
                  rw [none, stream_entries, List.append_nil]
                · rw [stream_entries_ne (Ne.symm same), List.append_nil]
    | _ => rfl
  appended id events appended := by
    cases step with
    | @store storeCall r log stored =>
        cases storeCall with
        | load id' => cases appended
        | publish id' options raws =>
            cases r with
            | error e => cases appended
            | ok changeset =>
                obtain ⟨rfl, rfl, -⟩ := appended
                rw [stored.publish_ok.1, EventLog.stream_append, stream_entries]
                exact (List.suffix_append _ _).isInfix
    | _ => cases appended
  rows key row kept found := step.row_increases kept found

end Step

/-! ### What a task leaves behind -/

/-- The log when call `c` began, against what happened before and since. -/
structure Since (began : EventLog) (c : Nat) (w : ProjectionWorld)
    (trace : List (ProjectionEvent collection type)) : Prop where
  grown : ∀ id, began.stream id <+: w.log.stream id
  recorded : ∀ call before later, trace = before ++ .invoked c call :: later →
    ∀ id events, ∀ event ∈ before, Appended id events event → events <:+: began.stream id
  still : ∀ call before later, trace = before ++ .invoked c call :: later →
    ∀ id, (∀ event ∈ later, ∀ events, ¬ Appended id events event) → w.log.stream id = began.stream id

/-- Unless it was deleted, the document is at least as new as the aggregate was when `c` began. -/
def Reflects (collection : String) (type : AggregateType) (began : EventLog) (c : Nat)
    (w : ProjectionWorld) (trace : List (ProjectionEvent collection type)) (id : AggregateId) : Prop :=
  ∀ call before later, trace = before ++ .invoked c call :: later →
    (∀ event ∈ later, ¬ Deletes id.aggregateKey event) →
    ∃ row, w.documents (collection, id.aggregateKey) = some row ∧
      (lastRevision (began.stream id)).text ≤ row.revision

theorem Since.begin
    (recorded : ∀ id events, ∀ event ∈ trace, Appended id events event → events <:+: w.log.stream id)
    (fresh : ∀ event ∈ trace, event.caller ≠ c) : Since w.log c w (trace ++ [.invoked c call]) where
  grown _ := List.prefix_refl _
  recorded call' before later split := by
    rcases split_concat split with ⟨rfl, -⟩ | ⟨rest, -, earlier⟩
    · exact recorded
    · exact absurd rfl (fresh (.invoked c call') (by rw [earlier]; simp))
  still _ _ _ _ _ _ := rfl

theorem Since.next (h : Since began c w trace) (onward : Onward w w' event)
    (other : ∀ call, event ≠ .invoked c call) : Since began c w' (trace ++ [event]) where
  grown id := (h.grown id).trans (onward.grows id)
  recorded call before later split := by
    rcases split_concat split with ⟨-, same⟩ | ⟨rest, -, earlier⟩
    · exact absurd same.symm (other call)
    · exact h.recorded call before rest earlier
  still call before later split id quiet := by
    rcases split_concat split with ⟨-, same⟩ | ⟨rest, rfl, earlier⟩
    · exact absurd same.symm (other call)
    · rw [onward.still id (quiet event (by simp))]
      exact h.still call before rest earlier id fun event' member => quiet event' (by simp [member])

theorem Reflects.next (h : Reflects collection type began c w trace id) (onward : Onward w w' event)
    (other : ∀ call, event ≠ .invoked c call) : Reflects collection type began c w' (trace ++ [event]) id := by
  intro call before later split kept
  rcases split_concat split with ⟨-, same⟩ | ⟨rest, rfl, earlier⟩
  · exact absurd same.symm (other call)
  · obtain ⟨row, found, recent⟩ := h call before rest earlier fun event' member => kept event' (by simp [member])
    obtain ⟨row', found', newer⟩ := onward.rows _ row (kept event (by simp)) found
    exact ⟨row', found', recent.trans newer⟩

/-- What a task loaded, covers and left current, against the log when it began. -/
structure CatchesUp (began : EventLog) (c : Nat) (k : ProjectionKnowledge) (w : ProjectionWorld)
    (trace : List (ProjectionEvent collection type)) : Prop where
  loaded : ∀ id aggregate, k.loaded = some (id, aggregate) → began.stream id <+: aggregate.events
  covers : k.enumerated = true → ∀ id, id.aggregateType = type → began.stream id ≠ [] → id ∈ k.targets
  current : ∀ id ∈ k.current, id.aggregateType = type → Reflects collection type began c w trace id

theorem CatchesUp.start (call : ProjectionCall collection type) :
    CatchesUp began c call.start w trace := by
  refine ⟨?_, ?_, ?_⟩
  · intro id aggregate loaded
    cases call <;> cases loaded
  · intro enumerated
    cases call <;> cases enumerated
  · intro id member
    cases call <;> cases member

section Knowledge

variable {k : ProjectionKnowledge}

theorem CatchesUp.next (h : CatchesUp began c k w trace) (onward : Onward w w' event)
    (other : ∀ call, event ≠ .invoked c call) : CatchesUp began c k w' (trace ++ [event]) :=
  ⟨h.loaded, h.covers, fun id member ofType => (h.current id member ofType).next onward other⟩

/-- A document at the revision that was loaded is at least as new as the aggregate was before. -/
theorem CatchesUp.note (h : CatchesUp began c k w trace) (known : Knows collection type c call k w trace)
    (ordered : w.log.Ordered) {key : String} {revision : Revision} {row : DocumentRow}
    (found : w.documents (collection, key) = some row) (recent : revision.text ≤ row.revision) :
    CatchesUp began c (k.note key revision) w trace := by
  unfold ProjectionKnowledge.note
  split
  · exact h
  · next id aggregate loaded =>
      split
      · next matching =>
          refine ⟨fun id' aggregate' => h.loaded id' aggregate', h.covers, fun id' member ofType => ?_⟩
          rcases List.mem_cons.mp member with rfl | old
          · intro call before later split kept
            obtain ⟨seen, prior, rfl, -⟩ := known.loaded _ _ loaded
            have older : lastRevision (began.stream id') ≤ lastRevision seen :=
              lastRevision_le ((ordered.increasing id').of_isPrefix prior) (h.loaded _ _ loaded)
            have revised : revision = lastRevision seen := matching.2
            rw [revised] at recent
            exact ⟨row, by rw [matching.1]; exact found, le_trans older recent⟩
          · exact h.current id' old ofType
      · exact h

variable [SerdeJson] [UlidParser] {op : ProjectionOp} {r : op.Res}

theorem CatchesUp.learn_get {within key : String} {r : Except SqliteError (Option Document)}
    (h : CatchesUp began c k w trace) (known : Knows collection type c call k w trace)
    (snapshots : Snapshots renderer collection type w) (answer : w.documents.get within key = r) :
    CatchesUp began c (k.learn collection (.get within key) r) w trace := by
  cases r with
  | error e => exact h
  | ok found =>
      cases found with
      | none => exact h
      | some document =>
          change CatchesUp _ _ (if within = collection then _ else _) _ _
          split
          · next same =>
              subst same
              obtain ⟨row, found, parsed⟩ := DocumentTable.row_of_get answer
              obtain ⟨written, seen, rfl, -, renders⟩ := snapshots.rows _ _ found
              rw [Document.revision_of_row parsed]
              exact h.note known snapshots.ordered found le_rfl
          · exact h

/-- The answer to an operation adds to what the task has caught up with. -/
theorem CatchesUp.learn (h : CatchesUp began c k w' (trace ++ [.performed c call op r]))
    (known : Knows collection type c call k w' (trace ++ [.performed c call op r]))
    (after : Snapshots renderer collection type w') (since : Since began c w trace)
    (may : (projectionDiscipline renderer collection type).may k op) (step : ProjectionStep w op r w') :
    CatchesUp began c (k.learn collection op r) w' (trace ++ [.performed c call op r]) := by
  cases step with
  | @store storeCall r log stored =>
      cases storeCall with
      | publish id options raws => exact h
      | load id =>
          cases r with
          | error e => exact h
          | ok aggregate =>
              obtain ⟨rfl, rfl⟩ := stored.load_ok
              refine ⟨fun id' aggregate' loaded => ?_, h.covers, h.current⟩
              cases loaded
              exact since.grown id
  | enumerated sound complete =>
      obtain rfl := may
      refine ⟨h.loaded, fun _ id ofType nonempty => complete id ofType fun none => ?_, h.current⟩
      have grown := since.grown id
      rw [none] at grown
      exact nonempty (List.prefix_nil.mp grown)
  | @upserted within key revision data =>
      change CatchesUp _ _ (if within = collection then _ else _) _ _
      split
      · next same =>
          subst same
          obtain ⟨row, found, recent⟩ := DocumentTable.insertOrUpdate_recent w.documents within key
            ⟨revision.text, SerdeJson.toText data⟩
          exact h.note known after.ordered found recent
      · exact h
  | got => exact h.learn_get known after rfl
  | enumerationFailed => exact h
  | upsertFailed => exact h
  | getFailed => exact h
  | deleted => exact h
  | deleteFailed => exact h

end Knowledge

/-! ### The run -/

/-- What every task has left behind by now, where `begun` is the log each one began on. -/
structure CaughtUp (begun : Nat → EventLog) (w : ProjectionWorld)
    (trace : List (ProjectionEvent collection type)) : Prop where
  recorded : ∀ id events, ∀ event ∈ trace, Appended id events event → events <:+: w.log.stream id
  since : ∀ c call, .invoked c call ∈ trace → Since (begun c) c w trace
  refreshed : ∀ c call id, .returned c call (.projected (.ok ())) ∈ trace → call.Refreshes id →
    id.aggregateType = type → (begun c).stream id ≠ [] → Reflects collection type (begun c) c w trace id

theorem CaughtUp.next {begun : Nat → EventLog} (h : CaughtUp begun w trace) (onward : Onward w w' event)
    (other : ∀ c call, event ≠ .invoked c call)
    (refreshed : ∀ c call id, event = .returned c call (.projected (.ok ())) → call.Refreshes id →
      id.aggregateType = type → (begun c).stream id ≠ [] →
      Reflects collection type (begun c) c w trace id) : CaughtUp begun w' (trace ++ [event]) where
  recorded id events earlier member appended := by
    rcases List.mem_append.mp member with old | new
    · exact (h.recorded id events earlier old appended).trans (onward.grows id).isInfix
    · rw [List.mem_singleton.mp new] at appended
      exact onward.appended id events appended
  since c call invoked := by
    rcases List.mem_append.mp invoked with old | new
    · exact (h.since c call old).next onward (other c)
    · exact absurd (List.mem_singleton.mp new).symm (other c call)
  refreshed c call id returned refreshes ofType nonempty := by
    rcases List.mem_append.mp returned with old | new
    · exact (h.refreshed c call id old refreshes ofType nonempty).next onward (other c)
    · have same := (List.mem_singleton.mp new).symm
      exact (refreshed c call id same refreshes ofType nonempty).next onward (other c)

theorem CaughtUp.invoke {begun : Nat → EventLog} (h : CaughtUp begun w trace)
    (fresh : ∀ event ∈ trace, event.caller ≠ c) :
    CaughtUp (Function.update begun c w.log) w (trace ++ [.invoked c call]) := by
  have idle : Onward w w (.invoked c call) := .invoked
  have others (c' : Nat) (ne : c' ≠ c) (call' : ProjectionCall collection type) :
      (.invoked c call : ProjectionEvent collection type) ≠ .invoked c' call' := by
    intro same
    cases same
    exact ne rfl
  refine ⟨fun id events event member appended => ?_, fun c' call' invoked => ?_, ?_⟩
  · rcases List.mem_append.mp member with old | new
    · exact h.recorded id events event old appended
    · rw [List.mem_singleton.mp new] at appended
      cases appended
  · rcases eq_or_ne c' c with rfl | ne
    · rw [Function.update_self]
      exact .begin h.recorded fresh
    · rw [Function.update_of_ne ne]
      rcases List.mem_append.mp invoked with old | new
      · exact (h.since c' call' old).next idle (others c' ne)
      · exact absurd (List.mem_singleton.mp new).symm (others c' ne call')
  · intro c' call' id returned refreshes ofType nonempty
    have old : .returned c' call' (.projected (.ok ())) ∈ trace := by simpa using returned
    have ne : c' ≠ c := fresh _ old
    rw [Function.update_of_ne ne] at nonempty ⊢
    exact (h.refreshed c' call' id old refreshes ofType nonempty).next idle (others c' ne)

/-- What a task that returned has refreshed. -/
theorem CatchesUp.refreshed {k : ProjectionKnowledge} (h : CatchesUp began c k w trace)
    (ended : call.refreshed k (.projected (.ok ()))) (refreshes : call.Refreshes id)
    (ofType : id.aggregateType = type) (nonempty : began.stream id ≠ []) :
    Reflects collection type began c w trace id := by
  cases call with
  | applyProjection changeset target =>
      obtain rfl : changeset.aggregateId = id := refreshes
      exact h.current _ (ended.2 changeset target rfl rfl) ofType
  | rebuildProjection =>
      obtain ⟨enumerated, settled⟩ := ended.1 rfl rfl
      exact h.current id (settled id (h.covers enumerated id ofType nonempty)) ofType
  | publish id' options events => cases refreshes
  | delete within key => cases refreshes
  | upsertElsewhere other key revision data elsewhere => cases refreshes

/-- The document a task refreshed renders at least what the aggregate had when the task began. -/
theorem CaughtUp.document [SerdeJson] [UlidParser] {begun : Nat → EventLog} (h : CaughtUp begun w trace)
    (snapshots : Snapshots renderer collection type w) (ofType : id.aggregateType = type)
    {before later : List (ProjectionEvent collection type)}
    (split : trace = before ++ .invoked c call :: later) (refreshes : call.Refreshes id)
    (returned : .returned c call (.projected (.ok ())) ∈ later)
    (kept : ∀ event ∈ later, ¬ Deletes id.aggregateKey event) (nonempty : (begun c).stream id ≠ []) :
    ∃ document seen, w.documents.Holds collection document ∧ seen <+: w.log.stream id ∧
      document.Renders renderer id seen ∧ (begun c).stream id <+: seen := by
  have inTrace : .returned c call (.projected (.ok ())) ∈ trace := by
    rw [split]
    exact List.mem_append_right _ (List.mem_cons_of_mem _ returned)
  have invoked : .invoked c call ∈ trace := by
    rw [split]
    exact List.mem_append_right _ List.mem_cons_self
  obtain ⟨row, found, recent⟩ :=
    h.refreshed c call id inTrace refreshes ofType nonempty call before later split kept
  subst ofType
  obtain ⟨document, seen, rfl, prior, renders⟩ := snapshots.rows _ _ found
  refine ⟨document, seen, ?_, prior, renders, ?_⟩
  · have sameKey : document.key = id.aggregateKey := renders.key
    rw [← sameKey] at found
    exact DocumentTable.holds_of_row found
  · apply snapshots.ordered.prefix_of_lastRevision_le ((h.since c call invoked).grown id) prior
    rw [← renders.revision]
    exact recent

section Runs

variable [SerdeJson] [UlidParser]

variable {w₀ : ProjectionWorld} {p : Pool (projections renderer collection type)}

end Runs

section Orders

attribute [local instance] canonicalUlidParser wholeNumberJson

section Landmarks

variable {event : ProjectionEvent "orders" ⟨"order"⟩}

end Landmarks

end Orders
end WeeEvents.Projection
