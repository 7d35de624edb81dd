import WeeEvents.Projection.Documents
import WeeEvents.Foundation.Pool

/-!
# Documents are snapshots

Publishers, projections, rebuilds and deletes in any interleaving, over one
collection that is written by one renderer for aggregates of one type. A task
works from an aggregate it loaded earlier: what carries the invariant is that the
aggregate is a prefix of its stream, and stays one.
-/
namespace WeeEvents.Projection
open Foundation

variable {S : Type} [Inhabited S] [Serialize S] {renderer : Renderer S DecodeError}
  {collection : String} {type : AggregateType}

/-! ### The system -/

/-- What may run around a collection. Only projections of the type write to it. -/
inductive ProjectionCall (collection : String) (type : AggregateType) where
  | publish (id : AggregateId) (options : PublishOptions) (events : List RawEvent)
  | applyProjection (changeset : ChangeSet) (ofType : changeset.aggregateId.aggregateType = type)
  | rebuildProjection
  | delete (within key : String)
  | upsertElsewhere (other key : String) (revision : Revision) (data : Json)
      (elsewhere : other ≠ collection)

inductive ProjectionResult where
  | published (r : Except Error ChangeSet)
  | projected (r : Except SqliteError Unit)
  | deleted (r : Except SqliteError Bool)
  | upserted (r : Except SqliteError Nat)

def ProjectionCall.program (renderer : Renderer S DecodeError) :
    ProjectionCall collection type → Program ProjectionOp ProjectionOp.Res ProjectionResult
  | publish id options events => (projectionCall (.store (.publish id options events))).bind fun r =>
      .ret (.published r)
  | applyProjection changeset _ =>
      (Projection.applyProjection renderer collection changeset).bind fun r => .ret (.projected r)
  | rebuildProjection =>
      (Projection.rebuildProjection renderer collection type).bind fun r => .ret (.projected r)
  | delete within key => (projectionCall (.delete within key)).bind fun r => .ret (.deleted r)
  | upsertElsewhere other key revision data _ =>
      (projectionCall (.upsert other key revision data)).bind fun r => .ret (.upserted r)

abbrev projections [SerdeJson] [UlidParser] (renderer : Renderer S DecodeError) (collection : String)
    (type : AggregateType) : System where
  Op := ProjectionOp
  Res := ProjectionOp.Res
  Shared := ProjectionWorld
  Call := ProjectionCall collection type
  Result := ProjectionResult
  program := ProjectionCall.program renderer
  step _ _ := ProjectionStep

abbrev ProjectionEvent (collection : String) (type : AggregateType) : Type :=
  Event ProjectionOp ProjectionOp.Res (ProjectionCall collection type) ProjectionResult

/-- The event publishes, or deletes from the collection. -/
def Disturbs : ProjectionEvent collection type → Prop
  | .performed _ _ (.store (.publish _ _ _)) _ => True
  | .performed _ _ (.delete within _) _ => within = collection
  | _ => False

/-- Nothing was published or deleted since call `c` began. -/
def Undisturbed (c : Nat) (trace : List (ProjectionEvent collection type)) : Prop :=
  ∀ before call later, trace = before ++ .invoked c call :: later → ∀ event ∈ later, ¬ Disturbs event

/-- The event removed the document under this key. -/
def Deletes (key : String) : ProjectionEvent collection type → Prop
  | .performed _ _ (.delete within key') (.ok true) => within = collection ∧ key' = key
  | _ => False

section Undisturbed

variable {c : Nat} {call : ProjectionCall collection type}
  {trace : List (ProjectionEvent collection type)} {event : ProjectionEvent collection type}

theorem Deletes.disturbs {key : String} (h : Deletes key event) : Disturbs event := by
  unfold Deletes at h
  split at h
  · exact h.1
  · cases h

theorem Undisturbed.earlier (h : Undisturbed c (trace ++ [event])) : Undisturbed c trace := by
  intro before call later split event' member
  refine h before call (later ++ [event]) ?_ event' (List.mem_append_left _ member)
  rw [split, List.append_assoc, List.cons_append]

theorem Undisturbed.last (h : Undisturbed c (trace ++ [event])) (began : .invoked c call ∈ trace) :
    ¬ Disturbs event := by
  obtain ⟨before, later, split⟩ := List.append_of_mem began
  refine h before call (later ++ [event]) ?_ event (List.mem_append_right _ (List.mem_singleton_self _))
  rw [split, List.append_assoc, List.cons_append]

end Undisturbed

/-! ### What a task knows -/

/-- The aggregates a task is about, the last one it loaded, and those it left up to date. -/
structure ProjectionKnowledge where
  targets : List AggregateId := []
  enumerated : Bool := false
  loaded : Option (AggregateId × Aggregate) := none
  current : List AggregateId := []

namespace ProjectionKnowledge

/-- The document under a key was seen or left at a revision. -/
def note (k : ProjectionKnowledge) (key : String) (revision : Revision) : ProjectionKnowledge :=
  match k.loaded with
  | none => k
  | some (id, aggregate) =>
      if id.aggregateKey = key ∧ revision = aggregate.revision then
        { k with current := id :: k.current }
      else k

def learn (collection : String) (k : ProjectionKnowledge) :
    (op : ProjectionOp) → op.Res → ProjectionKnowledge
  | .store (.load id), .ok aggregate => { k with loaded := some (id, aggregate) }
  | .enumerateAggregatesByType _, .ok ids => { k with targets := ids, enumerated := true }
  | .get collection' key, .ok (some document) =>
      if collection' = collection then k.note key document.revision else k
  | .upsert collection' key revision _, .ok _ =>
      if collection' = collection then k.note key revision else k
  | _, _ => k

/-- The document is the rendering of the aggregate that was loaded last. -/
def Supports (renderer : Renderer S DecodeError) (k : ProjectionKnowledge) (key : String)
    (revision : Revision) (data : Json) : Prop :=
  ∃ id aggregate entity, k.loaded = some (id, aggregate) ∧ id ∈ k.targets ∧ id.aggregateKey = key ∧
    renderer.render aggregate = .ok entity ∧ revision = entity.revision ∧
    Serialize.toValue entity.state = .ok data

end ProjectionKnowledge

/-- Into the collection a task only writes renderings of what it loaded. -/
def projectionDiscipline (renderer : Renderer S DecodeError) (collection : String)
    (type : AggregateType) : Discipline ProjectionOp ProjectionOp.Res ProjectionKnowledge where
  may k op := match op with
    | .upsert collection' key revision data =>
        collection' = collection → k.Supports renderer key revision data
    | .enumerateAggregatesByType type' => type' = type
    | _ => True
  learn := ProjectionKnowledge.learn collection

def ProjectionCall.start : ProjectionCall collection type → ProjectionKnowledge
  | applyProjection changeset _ => { targets := [changeset.aggregateId] }
  | _ => {}

/-- A rebuild that succeeds has left every aggregate it enumerated up to date. -/
def ProjectionCall.done (call : ProjectionCall collection type) (k : ProjectionKnowledge)
    (result : ProjectionResult) : Prop :=
  call = .rebuildProjection → result = .projected (.ok ()) →
    k.enumerated = true ∧ ∀ id ∈ k.targets, id ∈ k.current

section Obeys

variable {k : ProjectionKnowledge} {id : AggregateId} {aggregate : Aggregate}

theorem learn_upsert {key : String} {revision : Revision} {data : Json} {rows : Nat} :
    (projectionDiscipline renderer collection type).learn k
      (.upsert collection key revision data) (.ok rows) = k.note key revision := if_pos rfl

theorem learn_get {key : String} {document : Document} :
    (projectionDiscipline renderer collection type).learn k
      (.get collection key) (.ok (some document)) = k.note key document.revision := if_pos rfl

theorem loaded_note (key : String) (revision : Revision) :
    (k.note key revision).loaded = k.loaded := by
  unfold ProjectionKnowledge.note
  split
  · rfl
  · split <;> rfl

/-- What a task knows grows: its targets stay, and what is up to date stays so. -/
structure ProjectionKnowledge.Extends (k k' : ProjectionKnowledge) : Prop where
  targets : k'.targets = k.targets
  enumerated : k'.enumerated = k.enumerated
  current : ∀ id ∈ k.current, id ∈ k'.current

theorem ProjectionKnowledge.Extends.refl (k : ProjectionKnowledge) : k.Extends k :=
  ⟨rfl, rfl, fun _ member => member⟩

theorem ProjectionKnowledge.Extends.trans {k k' k'' : ProjectionKnowledge} (h : k.Extends k')
    (h' : k'.Extends k'') : k.Extends k'' :=
  ⟨h'.targets.trans h.targets, h'.enumerated.trans h.enumerated,
    fun id member => h'.current id (h.current id member)⟩

theorem extends_note (key : String) (revision : Revision) : k.Extends (k.note key revision) := by
  unfold ProjectionKnowledge.note
  split
  · exact .refl k
  · split
    · exact ⟨rfl, rfl, fun _ member => List.mem_cons_of_mem _ member⟩
    · exact .refl k

theorem note_current (loaded : k.loaded = some (id, aggregate)) :
    id ∈ (k.note id.aggregateKey aggregate.revision).current := by
  unfold ProjectionKnowledge.note
  rw [loaded]
  dsimp only
  rw [if_pos ⟨rfl, rfl⟩]
  exact List.mem_cons_self ..

theorem obeys_loadAggregate (id : AggregateId) :
    (projectionDiscipline renderer collection type).Obeys
      (fun k' r => k.Extends k' ∧ ∀ aggregate, r = .ok aggregate → k'.loaded = some (id, aggregate))
      (loadAggregate id) k := by
  refine ⟨trivial, fun r => ?_⟩
  cases r with
  | ok aggregate =>
      refine ⟨⟨rfl, rfl, fun _ member => member⟩, ?_⟩
      intro aggregate' same
      cases same
      rfl
  | error e => exact ⟨.refl k, nofun⟩

/-- Writing the rendering of the loaded aggregate brings its document up to date. -/
theorem obeys_writeDocument (loaded : k.loaded = some (id, aggregate)) (target : id ∈ k.targets) :
    (projectionDiscipline renderer collection type).Obeys
      (fun k' r => k.Extends k' ∧ (r = .ok () → id ∈ k'.current))
      (writeDocument renderer collection id.aggregateKey aggregate) k := by
  unfold writeDocument
  split
  · exact ⟨.refl k, nofun⟩
  · next entity rendered =>
      split
      · exact ⟨.refl k, nofun⟩
      · next data serialized =>
          refine ⟨fun _ => ⟨id, aggregate, entity, loaded, target, rfl, rendered, rfl, serialized⟩,
            fun r => ?_⟩
          cases r with
          | error e => exact ⟨.refl k, nofun⟩
          | ok rows =>
              have revision : entity.revision = aggregate.revision :=
                (Renderer.render_eq_ok.mp rendered).2.1
              rw [learn_upsert, revision]
              exact ⟨extends_note _ _, fun _ => note_current loaded⟩

theorem obeys_applyProjection (changeset : ChangeSet) (target : changeset.aggregateId ∈ k.targets) :
    (projectionDiscipline renderer collection type).Obeys (fun _ _ => True)
      (applyProjection renderer collection changeset) k := by
  refine (obeys_loadAggregate changeset.aggregateId).andThen (fun k' aggregate known => ?_)
    fun _ _ _ => trivial
  rw [← known.1.targets] at target
  exact (obeys_writeDocument (known.2 aggregate rfl) target).mono fun _ _ _ => trivial

theorem obeys_rebuildDocument (target : id ∈ k.targets) :
    (projectionDiscipline renderer collection type).Obeys
      (fun k' r => k.Extends k' ∧ (r = .ok () → id ∈ k'.current))
      (rebuildDocument renderer collection id) k := by
  refine (obeys_loadAggregate id).andThen (fun k₁ aggregate known => ?_)
    fun _ _ known => ⟨known.1, nofun⟩
  have loaded := known.2 aggregate rfl
  refine ⟨trivial, fun r => ?_⟩
  cases r with
  | error e => exact ⟨known.1, nofun⟩
  | ok document =>
      cases document with
      | none =>
          rw [← known.1.targets] at target
          exact (obeys_writeDocument loaded target).mono fun k' _ h => ⟨known.1.trans h.1, h.2⟩
      | some document =>
          rw [learn_get]
          simp only [Program.bind_ret]
          split
          · next current =>
              have same : document.revision = aggregate.revision := of_decide_eq_true current
              rw [same]
              exact ⟨known.1.trans (extends_note _ _), fun _ => note_current loaded⟩
          · have noted : k₁.Extends (k₁.note id.aggregateKey document.revision) := extends_note _ _
            rw [← (known.1.trans noted).targets] at target
            have stillLoaded := (loaded_note id.aggregateKey document.revision).trans loaded
            refine (obeys_writeDocument stillLoaded target).mono fun k' _ h => ?_
            exact ⟨(known.1.trans noted).trans h.1, h.2⟩

theorem obeys_rebuildDocuments (ids : List AggregateId) (targets : ∀ id ∈ ids, id ∈ k.targets) :
    (projectionDiscipline renderer collection type).Obeys
      (fun k' r => k.Extends k' ∧ (r = .ok () → ∀ id ∈ ids, id ∈ k'.current))
      (rebuildDocuments renderer collection ids) k := by
  induction ids generalizing k with
  | nil => exact ⟨.refl k, fun _ id member => by cases member⟩
  | cons id ids ih =>
      refine (obeys_rebuildDocument (targets id (List.mem_cons_self ..))).andThen
        (fun k₁ _ known => ?_) fun _ _ known => ⟨known.1, nofun⟩
      have rest : ∀ id' ∈ ids, id' ∈ k₁.targets := by
        intro id' member
        rw [known.1.targets]
        exact targets id' (List.mem_cons_of_mem _ member)
      refine (ih rest).mono fun k₂ r later => ⟨known.1.trans later.1, fun ok id' member => ?_⟩
      rcases List.mem_cons.mp member with rfl | inRest
      · exact later.1.current _ (known.2 rfl)
      · exact later.2 ok id' inRest

/-- Every call obeys the discipline. -/
theorem obeys_program (call : ProjectionCall collection type) :
    (projectionDiscipline renderer collection type).Obeys call.done (call.program renderer)
      call.start := by
  cases call with
  | publish id options events => exact ⟨trivial, fun _ => nofun⟩
  | applyProjection changeset ofType =>
      exact (obeys_applyProjection changeset (List.mem_singleton_self _)).bind fun _ _ _ => nofun
  | delete within key => exact ⟨trivial, fun _ => nofun⟩
  | upsertElsewhere other key revision data elsewhere =>
      exact ⟨fun same => absurd same elsewhere, fun _ => nofun⟩
  | rebuildProjection =>
      have rebuilds : (projectionDiscipline renderer collection type).Obeys
          (fun k r => r = .ok () → k.enumerated = true ∧ ∀ id ∈ k.targets, id ∈ k.current)
          (rebuildProjection renderer collection type) {} := by
        refine ⟨rfl, fun r => ?_⟩
        cases r with
        | error e => nofun
        | ok ids =>
            refine (obeys_rebuildDocuments ids fun _ member => member).mono fun k' r known ok => ?_
            rw [known.1.enumerated, known.1.targets]
            exact ⟨rfl, known.2 ok⟩
      refine rebuilds.bind fun k r known _ ok => ?_
      cases ok
      exact known rfl

end Obeys

/-! ### The invariant -/

/-- Every row of the collection is the rendering of what stands in the stream of its aggregate up
to some revision. -/
structure Snapshots [SerdeJson] (renderer : Renderer S DecodeError) (collection : String)
    (type : AggregateType) (w : ProjectionWorld) : Prop where
  ordered : w.log.Ordered
  rows : ∀ key row, w.documents (collection, key) = some row → ∃ document seen,
    row = document.row ∧ seen <+: w.log.stream ⟨type, key⟩ ∧
      Document.Renders document renderer ⟨type, key⟩ seen

/-- The document of an aggregate stands at the revision of its stream. -/
def UpToDate (collection : String) (w : ProjectionWorld) (id : AggregateId) : Prop :=
  ∃ row, w.documents (collection, id.aggregateKey) = some row ∧
    row.revision = (lastRevision (w.log.stream id)).text

/-- What is true of a task: its aggregate is a prefix of the stream, and the whole stream as long
as nothing disturbs it. -/
structure Knows (collection : String) (type : AggregateType) (c : Nat)
    (call : ProjectionCall collection type) (k : ProjectionKnowledge) (w : ProjectionWorld)
    (trace : List (ProjectionEvent collection type)) : Prop where
  began : .invoked c call ∈ trace
  ofType : ∀ id ∈ k.targets, id.aggregateType = type
  loaded : ∀ id aggregate, k.loaded = some (id, aggregate) → ∃ seen, seen <+: w.log.stream id ∧
    aggregate = Aggregate.fromEvents id seen ∧ (Undisturbed c trace → seen = w.log.stream id)
  covers : Undisturbed c trace → k.enumerated = true →
    ∀ id, id.aggregateType = type → w.log.stream id ≠ [] → id ∈ k.targets
  current : Undisturbed c trace → ∀ id ∈ k.current, id.aggregateType = type →
    UpToDate collection w id

section Invariant

variable {w w' : ProjectionWorld} {c c' : Nat} {call call' : ProjectionCall collection type}
  {k : ProjectionKnowledge} {trace : List (ProjectionEvent collection type)} {op : ProjectionOp}
  {r : op.Res}

/-- An event that is no operation changes nothing that is known. -/
theorem Knows.idle (h : Knows collection type c call k w trace)
    (event : ProjectionEvent collection type) : Knows collection type c call k w (trace ++ [event]) := by
  refine ⟨List.mem_append_left _ h.began, h.ofType, ?_, ?_, ?_⟩
  · intro id aggregate loaded
    obtain ⟨seen, before, from_, whole⟩ := h.loaded id aggregate loaded
    exact ⟨seen, before, from_, fun calm => whole calm.earlier⟩
  · exact fun calm => h.covers calm.earlier
  · exact fun calm => h.current calm.earlier

theorem Knows.start (call : ProjectionCall collection type) :
    Knows collection type c call call.start w (trace ++ [.invoked c call]) := by
  refine ⟨List.mem_append_right _ (List.mem_singleton_self _), ?_, ?_, ?_, ?_⟩
  · cases call with
    | applyProjection changeset ofType =>
        intro id member
        rw [List.mem_singleton.mp member]
        exact ofType
    | _ => exact fun id member => by cases member
  · intro id aggregate loaded
    cases call <;> cases loaded
  · intro _ enumerated
    cases call <;> cases enumerated
  · intro _ id member
    cases call <;> cases member

/-- What a task may write is the rendering of a prefix of the stream. -/
theorem Knows.writes (h : Knows collection type c call k w trace) {key : String}
    {revision : Revision} {data : Json} (supports : k.Supports renderer key revision data) :
    ∃ seen, seen <+: w.log.stream ⟨type, key⟩ ∧
      Document.Renders ⟨key, revision, data⟩ renderer ⟨type, key⟩ seen := by
  obtain ⟨id, aggregate, entity, loaded, target, rfl, rendered, sameRevision, serialized⟩ := supports
  obtain ⟨seen, before, rfl, -⟩ := h.loaded id aggregate loaded
  obtain rfl := h.ofType id target
  exact ⟨seen, before, rfl, entity, rendered, sameRevision, serialized⟩

theorem Knows.note (h : Knows collection type c call k w trace) {key : String} {revision : Revision}
    (upToDate : ∀ id, id.aggregateType = type → id.aggregateKey = key →
      revision = lastRevision (w.log.stream id) → UpToDate collection w id) :
    Knows collection type c call (k.note key revision) w trace := by
  unfold ProjectionKnowledge.note
  split
  · exact h
  · next id aggregate loaded =>
      split
      · next matching =>
          refine ⟨h.began, h.ofType, fun id' aggregate' => h.loaded id' aggregate', h.covers, ?_⟩
          intro calm id' member ofType
          rcases List.mem_cons.mp member with rfl | old
          · obtain ⟨seen, before, rfl, whole⟩ := h.loaded _ aggregate loaded
            apply upToDate _ ofType matching.1
            rw [matching.2, ← whole calm]
            rfl
          · exact h.current calm id' old ofType
      · exact h

variable [SerdeJson] [UlidParser]

theorem ProjectionStep.stream_grows (step : ProjectionStep w op r w') (id : AggregateId) :
    w.log.stream id <+: w'.log.stream id := by
  cases step with
  | store stored => exact stored.stream_grows id
  | _ => exact List.prefix_refl _

theorem ProjectionStep.log_of_not_disturbs (step : ProjectionStep w op r w')
    (calm : ¬ Disturbs (.performed c call op r)) : w'.log = w.log := by
  cases step with
  | @store storeCall r log stored =>
      cases storeCall with
      | load id => exact stored.load_log
      | publish id options raws => exact absurd trivial calm
  | _ => rfl

/-- Only a delete takes a row away, and no step lowers its revision. -/
theorem ProjectionStep.row_increases (step : ProjectionStep w op r w') {key : String}
    {row : DocumentRow} (kept : ¬ Deletes key (.performed c call op r))
    (found : w.documents (collection, key) = some row) :
    ∃ row', w'.documents (collection, key) = some row' ∧ row.revision ≤ row'.revision := by
  cases step with
  | upserted => exact DocumentTable.insertOrUpdate_increases found
  | @deleted within key' =>
      refine ⟨row, ?_, le_rfl⟩
      by_cases same : (collection, key) = (within, key')
      · cases same
        have removed : (w.documents.delete collection key).1 = true := by
          rw [DocumentTable.delete, found]
          rfl
        rw [removed] at kept
        exact absurd ⟨rfl, rfl⟩ kept
      · exact (Function.update_of_ne same ..).trans found
  | store => exact ⟨row, found, le_rfl⟩
  | enumerated => exact ⟨row, found, le_rfl⟩
  | enumerationFailed => exact ⟨row, found, le_rfl⟩
  | upsertFailed => exact ⟨row, found, le_rfl⟩
  | got => exact ⟨row, found, le_rfl⟩
  | getFailed => exact ⟨row, found, le_rfl⟩
  | deleteFailed => exact ⟨row, found, le_rfl⟩

omit [UlidParser] in
theorem Snapshots.keep (h : Snapshots renderer collection type w) (ordered : w'.log.Ordered)
    (grows : ∀ id, w.log.stream id <+: w'.log.stream id)
    (rows : ∀ key row, w'.documents (collection, key) = some row →
      w.documents (collection, key) = some row) : Snapshots renderer collection type w' := by
  refine ⟨ordered, fun key row found => ?_⟩
  obtain ⟨document, seen, same, before, renders⟩ := h.rows key row (rows key row found)
  exact ⟨document, seen, same, before.trans (grows _), renders⟩

/-- A step keeps the snapshots when what it writes is a rendering of a prefix. -/
theorem Snapshots.step (h : Snapshots renderer collection type w) (step : ProjectionStep w op r w')
    (writes : ∀ key revision data, op = .upsert collection key revision data →
      ∃ seen, seen <+: w.log.stream ⟨type, key⟩ ∧
        Document.Renders ⟨key, revision, data⟩ renderer ⟨type, key⟩ seen) :
    Snapshots renderer collection type w' := by
  have grows := step.stream_grows
  cases step with
  | store stored => exact h.keep (stored.ordered h.ordered) grows fun _ _ found => found
  | @upserted within key revision data =>
      refine ⟨h.ordered, fun key' row found => ?_⟩
      by_cases same : (collection, key') = (within, key)
      · cases same
        rcases DocumentTable.insertOrUpdate_self w.documents collection key
          ⟨revision.text, SerdeJson.toText data⟩ with written | old
        · obtain ⟨seen, before, renders⟩ := writes key revision data rfl
          refine ⟨⟨key, revision, data⟩, seen, ?_, before, renders⟩
          exact Option.some.inj (found.symm.trans written)
        · exact h.rows key row (old.symm.trans found)
      · exact h.rows key' row ((DocumentTable.insertOrUpdate_of_ne same).symm.trans found)
  | @deleted within key =>
      refine h.keep h.ordered grows fun key' row found => ?_
      by_cases same : (collection, key') = (within, key)
      · have removed : (w.documents.delete within key).2 (collection, key') = none := by
          rw [same]
          exact Function.update_self ..
        exact absurd (found.symm.trans removed) (by nofun)
      · exact (Function.update_of_ne same ..).symm.trans found
  | enumerated => exact h
  | enumerationFailed => exact h
  | upsertFailed => exact h
  | got => exact h
  | getFailed => exact h
  | deleteFailed => exact h

omit [UlidParser] in
/-- A document at least as new as its stream is up to date: it cannot be newer. -/
theorem Snapshots.upToDate (h : Snapshots renderer collection type w) {id : AggregateId}
    (ofType : id.aggregateType = type) {row : DocumentRow}
    (found : w.documents (collection, id.aggregateKey) = some row)
    (recent : (lastRevision (w.log.stream id)).text ≤ row.revision) : UpToDate collection w id := by
  subst ofType
  obtain ⟨document, seen, rfl, before, renders⟩ := h.rows _ _ found
  refine ⟨_, found, le_antisymm ?_ recent⟩
  change document.revision ≤ lastRevision (w.log.stream id)
  rw [renders.revision]
  exact h.ordered.lastRevision_le before

/-- A task knows after any step what it knew before it. -/
theorem Knows.frame (h : Knows collection type c call k w trace)
    (after : Snapshots renderer collection type w') (step : ProjectionStep w op r w') :
    Knows collection type c call k w' (trace ++ [.performed c' call' op r]) := by
  have same : Undisturbed c (trace ++ [.performed c' call' op r]) → w'.log = w.log :=
    fun calm => step.log_of_not_disturbs (calm.last h.began)
  refine ⟨List.mem_append_left _ h.began, h.ofType, ?_, ?_, ?_⟩
  · intro id aggregate loaded
    obtain ⟨seen, before, from_, whole⟩ := h.loaded id aggregate loaded
    refine ⟨seen, before.trans (step.stream_grows id), from_, fun calm => ?_⟩
    rw [same calm]
    exact whole calm.earlier
  · intro calm enumerated
    rw [same calm]
    exact h.covers calm.earlier enumerated
  · intro calm id member ofType
    obtain ⟨row, found, revision⟩ := h.current calm.earlier id member ofType
    have kept : ¬ Deletes id.aggregateKey (.performed c' call' op r) :=
      fun deletes => calm.last h.began deletes.disturbs
    obtain ⟨row', found', newer⟩ := step.row_increases kept found
    refine after.upToDate ofType found' ?_
    rw [same calm, ← revision]
    exact newer

/-- A document that was read at the revision of the stream is up to date. -/
theorem Snapshots.upToDate_of_get (h : Snapshots renderer collection type w) {id : AggregateId}
    (ofType : id.aggregateType = type) {document : Document}
    (got : w.documents.get collection id.aggregateKey = .ok (some document))
    (current : document.revision = lastRevision (w.log.stream id)) : UpToDate collection w id := by
  subst ofType
  obtain ⟨row, found, parsed⟩ := DocumentTable.row_of_get got
  obtain ⟨written, seen, rfl, -, -⟩ := h.rows _ _ found
  have revision : written.revision = lastRevision (w.log.stream id) :=
    (Document.revision_of_row parsed).symm.trans current
  exact ⟨_, found, congrArg Revision.text revision⟩

theorem Knows.learn_get {within key : String} {r : Except SqliteError (Option Document)}
    (h : Knows collection type c call k w trace) (snapshots : Snapshots renderer collection type w)
    (answer : w.documents.get within key = r) :
    Knows collection type c call (k.learn collection (.get within key) r) w trace := by
  match r with
  | .error e => exact h
  | .ok none => exact h
  | .ok (some document) =>
      change Knows _ _ _ _ (if within = collection then _ else _) _ _
      split
      · next same =>
          subst same
          refine h.note fun id ofType sameKey current => ?_
          subst sameKey
          exact snapshots.upToDate_of_get ofType answer current
      · exact h

/-- The answer to an operation adds to what the task knows. -/
theorem Knows.learn (h : Knows collection type c call k w' (trace ++ [.performed c call op r]))
    (after : Snapshots renderer collection type w')
    (may : (projectionDiscipline renderer collection type).may k op) (step : ProjectionStep w op r w') :
    Knows collection type c call (k.learn collection op r) w' (trace ++ [.performed c call op r]) := by
  cases step with
  | @store storeCall r log stored =>
      cases storeCall with
      | publish id options raws => exact h
      | load id =>
          cases r with
          | error e => exact h
          | ok aggregate =>
              obtain ⟨rfl, rfl⟩ := stored.load_ok
              refine ⟨h.began, h.ofType, ?_, h.covers, h.current⟩
              intro id' aggregate' loaded
              cases loaded
              exact ⟨_, List.prefix_refl _, rfl, fun _ => rfl⟩
  | enumerated sound complete =>
      obtain rfl := may
      exact ⟨h.began, sound, h.loaded, fun _ _ id ofType => complete id ofType, h.current⟩
  | @upserted within key revision data =>
      change Knows _ _ _ _ (if within = collection then _ else _) _ _
      split
      · next same =>
          subst same
          refine h.note fun id ofType sameKey current => ?_
          subst sameKey
          obtain ⟨row, found, recent⟩ := DocumentTable.insertOrUpdate_recent w.documents within
            id.aggregateKey ⟨revision.text, SerdeJson.toText data⟩
          refine after.upToDate ofType found ?_
          rw [← current]
          exact recent
      · exact h
  | got => exact h.learn_get after rfl
  | enumerationFailed => exact h
  | upsertFailed => exact h
  | getFailed => exact h
  | deleted => exact h
  | deleteFailed => exact h

/-- Every step keeps the snapshots, and what every task knows. -/
def snapshotRule (renderer : Renderer S DecodeError) (collection : String) (type : AggregateType) :
    Pool.Rule (S := projections renderer collection type) (G := Unit)
      (projectionDiscipline renderer collection type) (fun _ _ => True) where
  inv _ w _ := Snapshots renderer collection type w
  holds _ c call k w trace := Knows collection type c call k w trace
  start := ProjectionCall.start
  done := ProjectionCall.done
  obeys := obeys_program
  invoke {_ w trace c call} held _ _ _ :=
    ⟨(), held, .start call, fun c' call' k' _ before => before.idle _⟩
  perform {_ w trace c call k op r w'} held _ known may _ step := by
    have after : Snapshots renderer collection type w' := by
      refine held.step step fun key revision data same => ?_
      subst same
      exact known.writes (may rfl)
    exact ⟨(), after, (known.frame after step).learn after may step,
      fun c' call' k' _ before => before.frame after step⟩
  finish {_ w trace c call k result} held _ _ _ _ :=
    ⟨(), held, fun c' call' k' _ before => before.idle _⟩

/-- There is no row under the key, or that of a rendering of a prefix of its stream. -/
theorem Snapshots.holds (h : Snapshots renderer collection type w) (key : String) :
    w.documents (collection, key) = none ∨ ∃ document seen, w.documents.Holds collection document ∧
      seen <+: w.log.stream ⟨type, key⟩ ∧ document.Renders renderer ⟨type, key⟩ seen := by
  cases found : w.documents (collection, key) with
  | none => exact .inl rfl
  | some row =>
      obtain ⟨document, seen, rfl, before, renders⟩ := h.rows key row found
      obtain rfl : document.key = key := renders.key
      exact .inr ⟨document, seen, DocumentTable.holds_of_row found, before, renders⟩

end Invariant

section Runs

variable [SerdeJson] [UlidParser] {w₀ : ProjectionWorld}
  {p q : Pool (projections renderer collection type)}

theorem reachable_knows (ordered : w₀.log.Ordered) (empty : ∀ key, w₀.documents (collection, key) = none)
    (reach : Pool.Reachable w₀ p) :
    Snapshots renderer collection type p.shared ∧ ∀ c call prog, p.running c = some (call, prog) →
      ∃ k, Knows collection type c call k p.shared p.trace ∧
        (projectionDiscipline renderer collection type).Obeys call.done prog k := by
  let rule := snapshotRule renderer collection type
  have init : rule.inv () w₀ [] := by
    refine ⟨ordered, fun key row found => ?_⟩
    rw [empty key] at found
    cases found
  obtain ⟨_, held, knows⟩ := rule.sound init reach
  exact ⟨held, knows⟩

/-- Without a delete of its key a document stays, and its revision never decreases. -/
theorem stretch_row {events : List (ProjectionEvent collection type)} (stretch : Pool.Stretch p events q)
    {key : String} (kept : ∀ event ∈ events, ¬ Deletes key event) {row : DocumentRow}
    (found : p.shared.documents (collection, key) = some row) :
    ∃ row', q.shared.documents (collection, key) = some row' ∧ row.revision ≤ row'.revision := by
  refine stretch.preserves (P := fun w : ProjectionWorld => ∃ row', w.documents (collection, key) = some row' ∧
    row.revision ≤ row'.revision) ?_ ⟨row, found, le_rfl⟩
  rintro c call w op r w' member step ⟨row₁, found₁, older⟩
  obtain ⟨row₂, found₂, newer⟩ := ProjectionStep.row_increases step (kept _ member) found₁
  exact ⟨row₂, found₂, older.trans newer⟩

/-- After a rebuild that nothing disturbed, the documents of the type are up to date. -/
theorem rebuilt_upToDate (ordered : w₀.log.Ordered) (empty : ∀ key, w₀.documents (collection, key) = none)
    (reach : Pool.Reachable w₀ p) {c : Nat}
    (finished : Pool.Step p (.returned c .rebuildProjection (.projected (.ok ()))) q)
    (calm : Undisturbed c p.trace) {id : AggregateId} (ofType : id.aggregateType = type)
    (nonempty : q.shared.log.stream id ≠ []) : UpToDate collection q.shared id := by
  obtain ⟨-, knows⟩ := reachable_knows ordered empty reach
  cases finished with
  | finish running =>
      obtain ⟨k, known, obeys⟩ := knows _ _ _ running
      obtain ⟨enumerated, settled⟩ := obeys rfl rfl
      have target := known.covers calm enumerated id ofType nonempty
      exact known.current calm id (settled id target) ofType

end Runs

/-- Publishers, projections, rebuilds and deletes in any interleaving: every document is the
rendering of one prefix of its stream, its revision only grows until it is deleted, and a rebuild
that succeeds undisturbed has left every document of the type current. -/
theorem projections_are_snapshots {S : Type} [Inhabited S] [Serialize S] [SerdeJson] [UlidParser]
    (renderer : Renderer S DecodeError) (collection : String) (type : AggregateType)
    {w₀ : ProjectionWorld} (ordered : w₀.log.Ordered)
    (empty : ∀ key, w₀.documents (collection, key) = none)
    {p : Pool (projections renderer collection type)}
    (reach : Pool.Reachable w₀ p) :
    (∀ key, p.shared.documents (collection, key) = none ∨ ∃ document seen,
      p.shared.documents.Holds collection document ∧
        seen <+: p.shared.log.stream ⟨type, key⟩ ∧ document.Renders renderer ⟨type, key⟩ seen ∧
        ∀ other, other <+: p.shared.log.stream ⟨type, key⟩ →
          lastRevision other = document.revision → other = seen) ∧
    (∀ events q document, Pool.Stretch p events q → (∀ event ∈ events, ¬ Deletes document.key event) →
      p.shared.documents.Holds collection document →
      ∃ document', q.shared.documents.Holds collection document' ∧ document'.key = document.key ∧
        document.revision ≤ document'.revision) ∧
    ∀ c q, Pool.Step p (.returned c .rebuildProjection (.projected (.ok ()))) q →
      Undisturbed c p.trace → ∀ id, id.aggregateType = type → q.shared.log.stream id ≠ [] →
      ∃ document, q.shared.documents.Holds collection document ∧
        document.revision = lastRevision (q.shared.log.stream id) ∧
        document.Renders renderer id (q.shared.log.stream id) := by
  have snapshots := (reachable_knows ordered empty reach).1
  refine ⟨fun key => ?_, ?_, ?_⟩
  · rcases snapshots.holds key with none | ⟨document, seen, holds, before, renders⟩
    · exact .inl none
    · refine .inr ⟨document, seen, holds, before, renders, fun other prior same => ?_⟩
      rw [renders.revision] at same
      exact snapshots.ordered.eq_of_lastRevision prior before same
  · intro events q document stretch kept holds
    obtain ⟨row', found', newer⟩ := stretch_row stretch kept holds.row
    have later := (reachable_knows ordered empty (stretch.reachable reach)).1
    obtain ⟨document', _, rfl, -, renders⟩ := later.rows _ row' found'
    have sameKey : document'.key = document.key := renders.key
    rw [← sameKey] at found'
    exact ⟨document', DocumentTable.holds_of_row found', sameKey, newer⟩
  · intro c q finished calm id ofType nonempty
    obtain ⟨row, found, current⟩ := rebuilt_upToDate ordered empty reach finished calm ofType nonempty
    have later := (reachable_knows ordered empty (reach.step trivial finished)).1
    subst ofType
    obtain ⟨document, seen, rfl, before, renders⟩ := later.rows _ _ found
    have revision : document.revision = lastRevision (q.shared.log.stream id) := Revision.ext current
    have whole : seen = q.shared.log.stream id := by
      apply later.ordered.eq_of_lastRevision before (List.prefix_refl _)
      rw [← renders.revision]
      exact revision
    subst whole
    have sameKey : document.key = id.aggregateKey := renders.key
    rw [← sameKey] at found
    exact ⟨document, DocumentTable.holds_of_row found, revision, renders⟩

section Orders

attribute [local instance] canonicalUlidParser wholeNumberJson

abbrev orders : System := projections countingRenderer "orders" ⟨"order"⟩

def ordersWorld : ProjectionWorld := ⟨oneOrder, fun _ => none⟩

/-- A projection of the order and a rebuild, one after the other. -/
def ordersRun : Option (List ProjectionResult × ProjectionWorld) :=
  Pool.runInOrder (S := orders) (fun _ _ => serveProjection) 0
    [.applyProjection ⟨order42, Revision.fromUlid 1, [placed 1]⟩ rfl, .rebuildProjection] ordersWorld

theorem orders_are_snapshots : ∃ p : Pool orders, Pool.Reachable ordersWorld p ∧
    ∃ document seen, p.shared.documents.Holds "orders" document ∧
      seen <+: p.shared.log.stream order42 ∧ document.Renders countingRenderer order42 seen := by
  have written : (ordersRun.map fun run => run.2.documents ("orders", "42")) =
      some (some ⟨"00000000000000000000000001", "1"⟩) := by decide +kernel
  obtain ⟨⟨results, w'⟩, run, row⟩ := Option.map_eq_some_iff.mp written
  have begin : Pool.Reachable (S := orders) ordersWorld (Pool.initial ordersWorld) := .start
  obtain ⟨p, reach, rfl, -⟩ := begin.runInOrder (fun _ _ _ => ⟨trivial, fun _ => trivial⟩)
    (fun _ _ _ _ _ _ served => ⟨serveProjection_step served, trivial⟩) (fun _ _ _ _ => trivial)
    (fun _ _ _ member => by cases member) run
  refine ⟨p, reach, ?_⟩
  rcases (projections_are_snapshots countingRenderer "orders" ⟨"order"⟩ oneOrder_ordered
    (fun _ => rfl) reach).1 "42" with absent | ⟨document, seen, holds, before, renders, -⟩
  · cases absent.symm.trans row
  · exact ⟨document, seen, holds, before, renders⟩

end Orders
end WeeEvents.Projection
