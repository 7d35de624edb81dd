import WeeEvents.Projection.Documents

/-!
# Rebuilding a collection

A rebuild that runs alone, over any prior contents of the collection. It passes
over a document that stands at the current revision, and its upsert is ignored
where the stored revision is not older: what was there decides what is left.
-/
namespace WeeEvents.Projection
open Foundation

section Rebuild

variable {S : Type} [Inhabited S] [Serialize S] [SerdeJson] [UlidParser]
  (renderer : Renderer S DecodeError) (collection : String)

/-- The document of an aggregate is the rendering of its full stream. -/
def IsRendered (w : ProjectionWorld) (id : AggregateId) : Prop :=
  ∃ document, w.documents.Holds collection document ∧ document.Renders renderer id (w.log.stream id)

/-- What a rebuild can bring up to date: no document, an older one, or the right one. -/
def IsRebuildable (w : ProjectionWorld) (id : AggregateId) : Prop :=
  ∀ row, w.documents (collection, id.aggregateKey) = some row →
    IsRendered renderer collection w id ∨
      row.revision < (lastRevision (w.log.stream id)).text ∧
        ∀ document, row.document id.aggregateKey = .ok document →
          document.revision ≠ lastRevision (w.log.stream id)

variable {renderer collection} {w w' : ProjectionWorld} {id : AggregateId} {type : AggregateType}

theorem IsRendered.row (h : IsRendered renderer collection w id) :
    ∃ document : Document, w.documents (collection, id.aggregateKey) = some document.row ∧
      document.Renders renderer id (w.log.stream id) := by
  obtain ⟨document, holds, renders⟩ := h
  rw [← renders.key]
  exact ⟨document, holds.row, renders⟩

theorem isRendered_of_row {document : Document}
    (found : w.documents (collection, id.aggregateKey) = some document.row)
    (renders : document.Renders renderer id (w.log.stream id)) : IsRendered renderer collection w id := by
  rw [← renders.key] at found
  exact ⟨document, DocumentTable.holds_of_row found, renders⟩

/-- The state of one aggregate: its stream, and the row of its key. -/
structure SameFor (collection : String) (w w' : ProjectionWorld) (id : AggregateId) : Prop where
  stream : w'.log.stream id = w.log.stream id
  row : w'.documents (collection, id.aggregateKey) = w.documents (collection, id.aggregateKey)

omit [SerdeJson] [UlidParser] in
theorem SameFor.symm (h : SameFor collection w w' id) : SameFor collection w' w id :=
  ⟨h.stream.symm, h.row.symm⟩

theorem SameFor.keeps (h : SameFor collection w w' id) (rendered : IsRendered renderer collection w id) :
    IsRendered renderer collection w' id := by
  obtain ⟨document, found, renders⟩ := rendered.row
  rw [← h.row] at found
  rw [← h.stream] at renders
  exact isRendered_of_row found renders

theorem SameFor.isRendered (h : SameFor collection w w' id) :
    IsRendered renderer collection w' id ↔ IsRendered renderer collection w id :=
  ⟨h.symm.keeps, h.keeps⟩

theorem SameFor.isRebuildable (h : SameFor collection w w' id) :
    IsRebuildable renderer collection w' id ↔ IsRebuildable renderer collection w id := by
  simp only [IsRebuildable, h.isRendered, h.stream, h.row]

omit [SerdeJson] [UlidParser] in
theorem SameFor.trans {w₁ : ProjectionWorld} (h : SameFor collection w w₁ id)
    (h' : SameFor collection w₁ w' id) : SameFor collection w w' id :=
  ⟨h'.stream.trans h.stream, h'.row.trans h.row⟩

theorem IsRendered.isRebuildable (h : IsRendered renderer collection w id) :
    IsRebuildable renderer collection w id := fun _ _ => .inl h

/-- What one iteration, and then the whole loop, does to an aggregate it is about. -/
structure Rebuilds (renderer : Renderer S DecodeError) (collection : String)
    (w w' : ProjectionWorld) (id : AggregateId) : Prop where
  rendered : IsRebuildable renderer collection w id → IsRendered renderer collection w' id
  stuck : ¬ IsRebuildable renderer collection w id → SameFor collection w w' id

theorem upserted_isRendered {document : Document}
    (renders : document.Renders renderer id (w.log.stream id))
    (older : ∀ row, w.documents (collection, id.aggregateKey) = some row →
      row.revision < document.row.revision) :
    IsRendered renderer collection { w with documents :=
      (w.documents.insertOrUpdate collection id.aggregateKey document.row).2 } id := by
  refine isRendered_of_row ?_ renders
  dsimp only
  rw [DocumentTable.insertOrUpdate_writes older]
  exact Function.update_self ..

/-- One iteration: the aggregate it is about, and the frame. -/
theorem runs_rebuildDocument
    (run : Program.Runs ProjectionStep w (rebuildDocument renderer collection id) (.ok ()) w') :
    w'.log = w.log ∧ Rebuilds renderer collection w w' id ∧
      ∀ key, key ≠ id.aggregateKey → w'.documents (collection, key) = w.documents (collection, key) := by
  rcases run.of_andThen with ⟨e, failed, -⟩ | ⟨aggregate, w₁, loading, run⟩
  · cases failed
  obtain ⟨rfl, loaded⟩ := runs_loadAggregate loading
  obtain rfl := loaded aggregate rfl
  rcases run.of_andThen with ⟨e, failed, -⟩ | ⟨document, w₂, getting, run⟩
  · cases failed
  have got : w₁.documents.get collection id.aggregateKey = .ok document ∧ w₂ = w₁ := by
    generalize answer : (Except.ok document : Except SqliteError (Option Document)) = r at getting
    cases Program.runs_perform.mp getting with
    | got => exact ⟨rfl, rfl⟩
    | getFailed => cases answer
  obtain ⟨got, rfl⟩ := got
  split at run
  · next current =>
      -- the document is passed over
      obtain ⟨-, rfl⟩ := Program.runs_ret.mp run
      refine ⟨rfl, ⟨fun rebuildable => ?_, fun _ => ⟨rfl, rfl⟩⟩, fun _ _ => rfl⟩
      cases document with
      | none => cases current
      | some document =>
          obtain ⟨row, found, parsed⟩ := DocumentTable.row_of_get got
          rcases rebuildable row found with rendered | ⟨-, notCurrent⟩
          · exact rendered
          · exact absurd (of_decide_eq_true current) (notCurrent document parsed)
  · next outdated =>
      rcases runs_writeDocument run with ⟨e, failed, -⟩ | ⟨-, written, renders, rfl⟩
      · cases failed
      have other : ∀ key, key ≠ id.aggregateKey → (w₂.documents.insertOrUpdate collection
          id.aggregateKey written.row).2 (collection, key) = w₂.documents (collection, key) := by
        intro key ne
        exact DocumentTable.insertOrUpdate_of_ne fun same => ne (congrArg Prod.snd same)
      have revision : written.row.revision = (lastRevision (w₂.log.stream id)).text :=
        congrArg Revision.text renders.revision
      have notRendered : ¬ IsRendered renderer collection w₂ id := by
        intro rendered
        obtain ⟨stored, found, renders'⟩ := rendered.row
        cases document with
        | none => exact DocumentTable.get_ne_none found got
        | some read =>
            obtain ⟨row, found', parsed⟩ := DocumentTable.row_of_get got
            cases found.symm.trans found'
            have current : read.revision = lastRevision (w₂.log.stream id) :=
              (Document.revision_of_row parsed).trans renders'.revision
            exact outdated (decide_eq_true current)
      refine ⟨rfl, ⟨fun rebuildable => ?_, fun stuck => ⟨rfl, ?_⟩⟩, other⟩
      · refine upserted_isRendered renders fun row found => ?_
        rw [revision]
        exact ((rebuildable row found).resolve_left notRendered).1
      · -- the row is not older, so the upsert is ignored
        unfold IsRebuildable at stuck
        push Not at stuck
        obtain ⟨row, found, -, notOlder⟩ := stuck
        refine congrFun (DocumentTable.insertOrUpdate_ignores found fun older => ?_) _
        rw [revision] at older
        obtain ⟨document', parsed, current⟩ := notOlder older
        have same : document = some document' := by
          have read : w₂.documents.get collection id.aggregateKey = .ok (some document') := by
            unfold DocumentTable.get
            rw [found]
            dsimp only
            rw [parsed]
            rfl
          exact Except.ok.inj (got.symm.trans read)
        subst same
        exact outdated (decide_eq_true current)

/-- The loop: every aggregate it is about is rebuilt, and no other is touched. -/
theorem runs_rebuildDocuments {ids : List AggregateId} (ofType : ∀ id ∈ ids, id.aggregateType = type)
    (run : Program.Runs ProjectionStep w (rebuildDocuments renderer collection ids) (.ok ()) w') :
    w'.log = w.log ∧ ∀ id, id.aggregateType = type →
      (id ∈ ids → Rebuilds renderer collection w w' id) ∧
      (IsRendered renderer collection w id → IsRendered renderer collection w' id) ∧
      (¬ IsRebuildable renderer collection w id → SameFor collection w w' id) := by
  induction ids generalizing w with
  | nil =>
      obtain ⟨-, rfl⟩ := Program.runs_ret.mp run
      exact ⟨rfl, fun id _ => ⟨nofun, fun rendered => rendered, fun _ => ⟨rfl, rfl⟩⟩⟩
  | cons first rest ih =>
      rcases run.of_andThen with ⟨e, failed, -⟩ | ⟨_, w₁, one, later⟩
      · cases failed
      obtain ⟨log₁, rebuilt, frame⟩ := runs_rebuildDocument one
      obtain ⟨log₂, each⟩ := ih (fun id member => ofType id (List.mem_cons_of_mem _ member)) later
      have here := ofType first (List.mem_cons_self ..)
      refine ⟨log₂.trans log₁, fun id isType => ?_⟩
      obtain ⟨inRest, staysRendered, staysStuck⟩ := each id isType
      -- an aggregate of the type is the one of this iteration, or has another key
      by_cases same : id = first
      · subst same
        have rendered : IsRebuildable renderer collection w id → IsRendered renderer collection w' id :=
          fun rebuildable => staysRendered (rebuilt.rendered rebuildable)
        have stuck : ¬ IsRebuildable renderer collection w id → SameFor collection w w' id := by
          intro stuck
          have kept := rebuilt.stuck stuck
          exact kept.trans (staysStuck (mt kept.isRebuildable.mp stuck))
        exact ⟨fun _ => ⟨rendered, stuck⟩, fun before => rendered before.isRebuildable, stuck⟩
      · have ne : id.aggregateKey ≠ first.aggregateKey := by
          intro sameKey
          obtain ⟨idType, idKey⟩ := id
          obtain ⟨firstType, firstKey⟩ := first
          cases isType
          cases here
          cases sameKey
          exact same rfl
        have kept : SameFor collection w w₁ id := ⟨by rw [log₁], frame _ ne⟩
        have stuck : ¬ IsRebuildable renderer collection w id → SameFor collection w w' id :=
          fun stuck => kept.trans (staysStuck (mt kept.isRebuildable.mp stuck))
        refine ⟨fun member => ⟨fun rebuildable => ?_, stuck⟩, fun rendered => ?_, stuck⟩
        · have later := inRest ((List.mem_cons.mp member).resolve_left same)
          exact later.rendered (kept.isRebuildable.mpr rebuildable)
        · exact staysRendered (kept.isRendered.mpr rendered)

end Rebuild

/-- A rebuild that returns Ok with no one else at work leaves the documents of the type exact if
and only if each was absent, older than its stream, or already its rendering. -/
theorem rebuild_exact_iff {S : Type} [Inhabited S] [Serialize S] [SerdeJson] [UlidParser]
    (renderer : Renderer S DecodeError) (collection : String) (type : AggregateType)
    {w w' : ProjectionWorld}
    (run : Program.Runs ProjectionStep w (rebuildProjection renderer collection type) (.ok ()) w') :
    w'.log = w.log ∧
    ((∀ id, id.aggregateType = type → w.log.stream id ≠ [] → IsRendered renderer collection w' id) ↔
      ∀ id, id.aggregateType = type → w.log.stream id ≠ [] → IsRebuildable renderer collection w id) := by
  rcases run.of_andThen with ⟨e, failed, -⟩ | ⟨ids, w₁, enumerating, run⟩
  · cases failed
  cases Program.runs_perform.mp enumerating with
  | enumerated sound complete =>
      obtain ⟨log, each⟩ := runs_rebuildDocuments sound run
      refine ⟨log, ?_, ?_⟩
      · intro exact_ id isType nonempty
        by_contra stuck
        have kept := (each id isType).2.2 stuck
        exact stuck (kept.isRendered.mp (exact_ id isType nonempty)).isRebuildable
      · intro rebuildable id isType nonempty
        have member := complete id isType nonempty
        exact ((each id isType).1 member).rendered (rebuildable id isType nonempty)

section Orders

attribute [local instance] canonicalUlidParser wholeNumberJson

/-- The order with a document an earlier renderer left at the current revision. -/
def otherRendering : ProjectionWorld where
  log := oneOrder
  documents := Function.update (fun _ => none) ("orders", "42") (some ⟨"00000000000000000000000001", "7"⟩)

def rebuildOrders (w : ProjectionWorld) : Option (Except SqliteError Unit × ProjectionWorld) :=
  (rebuildProjection countingRenderer "orders" ⟨"order"⟩).eval serveProjection w

theorem rebuildOrders_runs {w w' : ProjectionWorld} {r : Except SqliteError Unit}
    (run : rebuildOrders w = some (r, w')) :
    Program.Runs ProjectionStep w (rebuildProjection countingRenderer "orders" ⟨"order"⟩) r w' :=
  (Program.runs_iff_eval.mpr run).mono fun _ _ _ _ served => serveProjection_step served

/-- An empty collection is rebuilt exactly. -/
theorem empty_collection_rebuilt : ∃ w',
    Program.Runs ProjectionStep ⟨oneOrder, fun _ => none⟩
      (rebuildProjection countingRenderer "orders" ⟨"order"⟩) (.ok ()) w' ∧
      ∀ id : AggregateId, id.aggregateType = ⟨"order"⟩ → oneOrder.stream id ≠ [] →
        IsRendered countingRenderer "orders" w' id := by
  have ok : ((rebuildOrders ⟨oneOrder, fun _ => none⟩).map fun run => run.1.toOption) =
      some (some ()) := by decide +kernel
  obtain ⟨⟨r, w'⟩, run, succeeded⟩ := Option.map_eq_some_iff.mp ok
  cases r with
  | error e => cases succeeded
  | ok =>
      have runs := rebuildOrders_runs run
      exact ⟨w', runs, (rebuild_exact_iff countingRenderer "orders" ⟨"order"⟩ runs).2.mpr
        fun id _ _ row found => by cases found⟩

theorem data_oneOrder {document : Document}
    (renders : document.Renders countingRenderer order42 [placed 1]) : document.data = .number "1" := by
  obtain ⟨entity, rendered, -, data⟩ := renders.rendered
  have counted : (countingRenderer.render (Aggregate.fromEvents order42 [placed 1])).toOption.map
      Entity.state = some 1 := by decide +kernel
  rw [rendered] at counted
  obtain one : entity.state = 1 := Option.some.inj counted
  rw [one] at data
  have same : toString 1 = "1" := by decide +kernel
  rw [← Except.ok.inj data, ← same]

/-- A document of another renderer at the current revision is passed over. -/
theorem other_rendering_kept : ∃ w',
    Program.Runs ProjectionStep otherRendering
      (rebuildProjection countingRenderer "orders" ⟨"order"⟩) (.ok ()) w' ∧
      otherRendering.log.stream order42 ≠ [] ∧ ¬ IsRendered countingRenderer "orders" w' order42 := by
  have kept : ((rebuildOrders otherRendering).map fun run =>
      (run.1.toOption, run.2.documents ("orders", "42"), run.2.log.stream order42)) =
      some (some (), some ⟨"00000000000000000000000001", "7"⟩, [placed 1]) := by decide +kernel
  obtain ⟨⟨r, w'⟩, run, same⟩ := Option.map_eq_some_iff.mp kept
  obtain ⟨succeeded, same⟩ := Prod.mk.inj same
  obtain ⟨row, stream⟩ := Prod.mk.inj same
  cases r with
  | error e => cases succeeded
  | ok =>
      refine ⟨w', rebuildOrders_runs run, by decide +kernel, ?_⟩
      intro rendered
      obtain ⟨document, found, renders⟩ := rendered.row
      rw [stream] at renders
      have written : SerdeJson.toText document.data = "7" :=
        congrArg DocumentRow.data (Option.some.inj (found.symm.trans row))
      rw [data_oneOrder renders] at written
      exact absurd written (by decide +kernel)

end Orders
end WeeEvents.Projection
