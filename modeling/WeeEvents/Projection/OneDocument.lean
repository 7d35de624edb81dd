import WeeEvents.Projection.Documents

/-!
# One document per aggregate

Publishes and projections one after the other, over any aggregates. A document
stands under the key of its aggregate alone, so what keeps two documents apart is
that no two projected aggregates have the same key.
-/
namespace WeeEvents.Projection
open Foundation

inductive ProjectionRecord where
  | published (id : AggregateId) (options : PublishOptions) (events : List RawEvent)
      (r : Except Error ChangeSet)
  | projected (changeset : ChangeSet) (r : Except SqliteError Unit)

/-- The aggregates of a sequence that were projected. -/
def projectedIds (records : List ProjectionRecord) : List AggregateId :=
  records.filterMap fun
    | .published _ _ _ _ => none
    | .projected changeset _ => some changeset.aggregateId

/-- No two of the projected aggregates share a key. -/
def KeysApart (records : List ProjectionRecord) : Prop :=
  ∀ id ∈ projectedIds records, ∀ other ∈ projectedIds records,
    id.aggregateKey = other.aggregateKey → id = other

theorem projectedIds_append (records more : List ProjectionRecord) :
    projectedIds (records ++ more) = projectedIds records ++ projectedIds more :=
  List.filterMap_append

section Sequence

variable {S : Type} [Inhabited S] [Serialize S] [SerdeJson] [UlidParser]

/-- Publishes and projections, each run alone, one after the other. -/
inductive Sequential (renderer : Renderer S DecodeError) (collection : String) (w : ProjectionWorld) :
    List ProjectionRecord → ProjectionWorld → Prop
  | nil : Sequential renderer collection w [] w
  | publish {w' : ProjectionWorld} {records : List ProjectionRecord} {id : AggregateId}
      {options : PublishOptions} {events : List RawEvent} {r : Except Error ChangeSet}
      {log : EventLog} :
      Sequential renderer collection w records w' →
      StoreStep w'.log (.publish id options events) r log →
      Sequential renderer collection w (records ++ [.published id options events r]) { w' with log }
  | project {w' w'' : ProjectionWorld} {records : List ProjectionRecord} {changeset : ChangeSet}
      {r : Except SqliteError Unit} :
      Sequential renderer collection w records w' →
      Program.Runs ProjectionStep w' (applyProjection renderer collection changeset) r w'' →
      Sequential renderer collection w (records ++ [.projected changeset r]) w''

/-- Every document of the collection renders a prefix of the stream of a projected aggregate
that has its key. -/
structure OwnDocuments (renderer : Renderer S DecodeError) (collection : String)
    (records : List ProjectionRecord) (w : ProjectionWorld) : Prop where
  ordered : w.log.Ordered
  rows : ∀ key row, w.documents (collection, key) = some row → ∃ id ∈ projectedIds records,
    id.aggregateKey = key ∧ ∃ document seen, row = document.row ∧ seen <+: w.log.stream id ∧
      Document.Renders document renderer id seen

variable {renderer : Renderer S DecodeError} {collection : String} {w w' : ProjectionWorld}
  {records : List ProjectionRecord} {changeset : ChangeSet}

omit [UlidParser] in
theorem OwnDocuments.publish (h : OwnDocuments renderer collection records w) {id : AggregateId}
    {options : PublishOptions} {events : List RawEvent} {r : Except Error ChangeSet} {log : EventLog}
    (step : StoreStep w.log (.publish id options events) r log) :
    OwnDocuments renderer collection (records ++ [.published id options events r]) { w with log } := by
  refine ⟨step.ordered h.ordered, fun key row found => ?_⟩
  obtain ⟨owner, member, sameKey, document, seen, same, before, renders⟩ := h.rows key row found
  refine ⟨owner, ?_, sameKey, document, seen, same, before.trans (step.stream_grows owner), renders⟩
  rw [projectedIds_append]
  exact List.mem_append_left _ member

theorem OwnDocuments.project (h : OwnDocuments renderer collection records w)
    {r : Except SqliteError Unit}
    (run : Program.Runs ProjectionStep w (applyProjection renderer collection changeset) r w') :
    OwnDocuments renderer collection (records ++ [.projected changeset r]) w' := by
  have earlier : ∀ id ∈ projectedIds records,
      id ∈ projectedIds (records ++ [.projected changeset r]) := by
    intro id member
    rw [projectedIds_append]
    exact List.mem_append_left _ member
  have old : ∀ key row, w.documents (collection, key) = some row →
      ∃ id ∈ projectedIds (records ++ [.projected changeset r]), id.aggregateKey = key ∧
        ∃ document seen, row = document.row ∧ seen <+: w.log.stream id ∧
          Document.Renders document renderer id seen := by
    intro key row found
    obtain ⟨owner, member, rest⟩ := h.rows key row found
    exact ⟨owner, earlier owner member, rest⟩
  rcases runs_applyProjection run with ⟨e, rfl, rfl⟩ | ⟨rfl, document, renders, rfl⟩
  · exact ⟨h.ordered, old⟩
  · refine ⟨h.ordered, fun key row found => ?_⟩
    by_cases sameKey : key = changeset.aggregateId.aggregateKey
    · subst sameKey
      rcases DocumentTable.insertOrUpdate_self w.documents collection
        changeset.aggregateId.aggregateKey document.row with written | kept
      · have isWritten : row = document.row := Option.some.inj (found.symm.trans written)
        refine ⟨changeset.aggregateId, ?_, rfl, document, _, isWritten, List.prefix_refl _, renders⟩
        rw [projectedIds_append]
        exact List.mem_append_right _ (List.mem_singleton_self _)
      · exact old _ row (kept.symm.trans found)
    · have other : (collection, key) ≠ (collection, changeset.aggregateId.aggregateKey) :=
        fun same => sameKey (congrArg Prod.snd same)
      exact old key row ((DocumentTable.insertOrUpdate_of_ne other).symm.trans found)

theorem Sequential.ownDocuments (run : Sequential renderer collection w records w')
    (ordered : w.log.Ordered) (empty : ∀ key, w.documents (collection, key) = none) :
    OwnDocuments renderer collection records w' := by
  induction run with
  | nil =>
      refine ⟨ordered, fun key row found => ?_⟩
      rw [empty key] at found
      cases found
  | publish _ step ih => exact ih.publish step
  | project _ run ih => exact ih.project run

/-- A projection that succeeds leaves the rendering of the full stream under the key, unless a
different aggregate has it. -/
theorem OwnDocuments.projected (h : OwnDocuments renderer collection records w)
    (alone : ∀ id ∈ projectedIds records, id.aggregateKey = changeset.aggregateId.aggregateKey →
      id = changeset.aggregateId)
    (run : Program.Runs ProjectionStep w (applyProjection renderer collection changeset) (.ok ()) w') :
    ∃ document : Document, w'.documents (collection, changeset.aggregateId.aggregateKey) =
      some document.row ∧
        document.Renders renderer changeset.aggregateId (w.log.stream changeset.aggregateId) := by
  rcases runs_applyProjection run with ⟨e, failed, -⟩ | ⟨-, document, renders, rfl⟩
  · cases failed
  by_cases older : ∀ row, w.documents (collection, changeset.aggregateId.aggregateKey) = some row →
      row.revision < document.row.revision
  · refine ⟨document, ?_, renders⟩
    dsimp only
    rw [DocumentTable.insertOrUpdate_writes older]
    exact Function.update_self ..
  · push Not at older
    obtain ⟨row, found, notOlder⟩ := older
    obtain ⟨owner, member, sameKey, stored, seen, rfl, before, rendersSeen⟩ := h.rows _ row found
    obtain rfl := alone owner member sameKey
    -- what is stored is a prefix and not older, so it is the whole stream
    have whole : seen = w.log.stream changeset.aggregateId := by
      apply h.ordered.eq_of_lastRevision before (List.prefix_refl _)
      apply le_antisymm (h.ordered.lastRevision_le before)
      rw [← rendersSeen.revision, ← renders.revision]
      exact notOlder
    subst whole
    refine ⟨stored, ?_, rendersSeen⟩
    dsimp only
    rw [DocumentTable.insertOrUpdate_ignores found (not_lt.mpr notOlder)]
    exact found

/-- Projections of aggregates with other keys, and those that fail, leave the row of a key. -/
theorem Sequential.row_kept (run : Sequential renderer collection w records w') {id : AggregateId}
    (apart : ∀ other ∈ projectedIds records, other.aggregateKey = id.aggregateKey → other = id)
    (notAgain : ∀ changeset, .projected changeset (.ok ()) ∈ records → changeset.aggregateId ≠ id) :
    w'.documents (collection, id.aggregateKey) = w.documents (collection, id.aggregateKey) := by
  induction run with
  | nil => rfl
  | publish _ step ih =>
      apply ih
      · intro other member
        apply apart other
        rw [projectedIds_append]
        exact List.mem_append_left _ member
      · exact fun changeset member => notAgain changeset (List.mem_append_left _ member)
  | @project w₁ w₂ records changeset r _ run ih =>
      have before := ih
        (fun other member => apart other (by
          rw [projectedIds_append]
          exact List.mem_append_left _ member))
        fun changeset member => notAgain changeset (List.mem_append_left _ member)
      rcases runs_applyProjection run with ⟨e, rfl, rfl⟩ | ⟨rfl, document, -, rfl⟩
      · exact before
      · have last : .projected changeset (.ok ()) ∈ records ++ [.projected changeset (.ok ())] :=
          List.mem_append_right _ (List.mem_singleton_self _)
        have ne : (collection, id.aggregateKey) ≠ (collection, changeset.aggregateId.aggregateKey) := by
          intro same
          have isId := apart changeset.aggregateId (by
            rw [projectedIds_append]
            exact List.mem_append_right _ (List.mem_singleton_self _)) (congrArg Prod.snd same).symm
          exact notAgain changeset last isId
        exact (DocumentTable.insertOrUpdate_of_ne ne).trans before

end Sequence

/-- As long as no two projected aggregates share a key: a projection that succeeds leaves the
rendering of its aggregate's own stream, until that aggregate is projected again. It is got exactly
when the rendered state reads back from its text. -/
theorem one_document_per_aggregate {S : Type} [Inhabited S] [Serialize S] [SerdeJson] [UlidParser]
    (renderer : Renderer S DecodeError) (collection : String) {w₀ w₁ w₂ w₃ : ProjectionWorld}
    {before after : List ProjectionRecord} {changeset : ChangeSet} (ordered : w₀.log.Ordered)
    (empty : ∀ key, w₀.documents (collection, key) = none)
    (earlier : Sequential renderer collection w₀ before w₁)
    (projection : Program.Runs ProjectionStep w₁ (applyProjection renderer collection changeset)
      (.ok ()) w₂)
    (later : Sequential renderer collection w₂ after w₃)
    (apart : KeysApart (before ++ .projected changeset (.ok ()) :: after))
    (notAgain : ∀ other, .projected other (.ok ()) ∈ after →
      other.aggregateId ≠ changeset.aggregateId) :
    ∃ document : Document, document.revision = lastRevision (w₁.log.stream changeset.aggregateId) ∧
      document.Renders renderer changeset.aggregateId (w₁.log.stream changeset.aggregateId) ∧
      w₃.documents (collection, changeset.aggregateId.aggregateKey) = some document.row ∧
      (w₃.documents.get collection changeset.aggregateId.aggregateKey = .ok (some document) ↔
        StateReadsBack renderer
          (Aggregate.fromEvents changeset.aggregateId (w₁.log.stream changeset.aggregateId))) := by
  have itself : changeset.aggregateId ∈
      projectedIds (before ++ .projected changeset (.ok ()) :: after) := by
    rw [projectedIds_append]
    exact List.mem_append_right _ (List.mem_cons_self ..)
  have own : ∀ id, id ∈ projectedIds before ∨ id ∈ projectedIds after →
      id.aggregateKey = changeset.aggregateId.aggregateKey → id = changeset.aggregateId := by
    intro id member
    refine apart id ?_ _ itself
    rw [projectedIds_append]
    rcases member with early | late
    · exact List.mem_append_left _ early
    · exact List.mem_append_right _ (List.mem_cons_of_mem _ late)
  obtain ⟨document, found, renders⟩ := (earlier.ownDocuments ordered empty).projected
    (fun id member => own id (.inl member)) projection
  rw [← later.row_kept (fun id member => own id (.inr member)) notAgain] at found
  refine ⟨document, renders.revision, renders, found, ?_⟩
  rw [← renders.readsBack_iff]
  rw [← renders.key] at found ⊢
  exact (DocumentTable.holds_of_row found).got

section Orders

attribute [local instance] canonicalUlidParser wholeNumberJson

def invoice42 : AggregateId := ⟨⟨"invoice"⟩, "42"⟩

def emptyWorld : ProjectionWorld := ⟨[], fun _ => none⟩

/-- An order, and an invoice with the same key. -/
def orderAndInvoice : EventLog := oneOrder ++ entries invoice42 [placed 2]

theorem orderAndInvoice_ordered : orderAndInvoice.Ordered :=
  EventLog.ordered_of_increasing (by
    unfold Increasing
    decide +kernel) (by decide +kernel)

def orderChange : ChangeSet := ⟨order42, Revision.fromUlid 1, [placed 1]⟩

def invoiceChange : ChangeSet := ⟨invoice42, Revision.fromUlid 2, [placed 2]⟩

def publishedRecord (changeset : ChangeSet) : ProjectionRecord :=
  .published changeset.aggregateId {} [⟨⟨"placed"⟩, ⟨.json, []⟩⟩] (.ok changeset)

/-- The store may append one event to any stream, with any new revision. -/
theorem placed_step {log : EventLog} {id : AggregateId} {revision : Ulid}
    (ordered : EventLog.Ordered (log ++ entries id [placed revision])) :
    StoreStep log (.publish id {} [⟨⟨"placed"⟩, ⟨.json, []⟩⟩])
      (.ok ⟨id, Revision.fromUlid revision, [placed revision]⟩) (log ++ entries id [placed revision]) := by
  have carries : List.Forall₂ (fun event raw => event.Carries (PublishOptions.metadata {}) raw)
      [placed revision] [⟨⟨"placed"⟩, ⟨.json, []⟩⟩] := .cons ⟨rfl, rfl, rfl⟩ .nil
  refine .appended (List.cons_ne_nil _ _) carries ?_ ordered
  intro e expecting
  cases expecting

theorem order_published : Sequential countingRenderer "orders" emptyWorld
    [publishedRecord orderChange] ⟨oneOrder, fun _ => none⟩ :=
  .publish .nil (@placed_step [] order42 1 oneOrder_ordered)

theorem invoice_published : Sequential countingRenderer "orders" emptyWorld
    [publishedRecord orderChange, publishedRecord invoiceChange] ⟨orderAndInvoice, fun _ => none⟩ :=
  .publish order_published (placed_step orderAndInvoice_ordered)

def projectOne (changeset : ChangeSet) (w : ProjectionWorld) :
    Option (Except SqliteError Unit × ProjectionWorld) :=
  (applyProjection countingRenderer "orders" changeset).eval serveProjection w

theorem projectOne_runs {changeset : ChangeSet} {w w' : ProjectionWorld} {r : Except SqliteError Unit}
    (run : projectOne changeset w = some (r, w')) :
    Program.Runs ProjectionStep w (applyProjection countingRenderer "orders" changeset) r w' :=
  (Program.runs_iff_eval.mpr run).mono fun _ _ _ _ served => serveProjection_step served

theorem order_has_its_document : ∃ w, Program.Runs ProjectionStep ⟨oneOrder, fun _ => none⟩
    (applyProjection countingRenderer "orders" orderChange) (.ok ()) w ∧
      ∃ document, document.revision = lastRevision (oneOrder.stream order42) ∧
        document.Renders countingRenderer order42 (oneOrder.stream order42) ∧
        w.documents.get "orders" "42" = .ok (some document) := by
  have ok : ((projectOne orderChange ⟨oneOrder, fun _ => none⟩).map fun run => run.1.toOption) =
      some (some ()) := by decide +kernel
  obtain ⟨⟨r, w⟩, run, succeeded⟩ := Option.map_eq_some_iff.mp ok
  cases r with
  | error e => cases succeeded
  | ok =>
      have projection := projectOne_runs run
      obtain ⟨document, revision, renders, -, got⟩ := one_document_per_aggregate countingRenderer "orders"
        EventLog.ordered_nil (fun _ => rfl) order_published projection .nil
        (by unfold KeysApart; decide +kernel) (by nofun)
      have reads : StateReadsBack countingRenderer (Aggregate.fromEvents order42 (oneOrder.stream order42)) :=
        fun _ data _ _ => readsBack_wholeNumberJson data
      exact ⟨w, projection, document, revision, renders, got.mpr reads⟩

/-- After the invoice was projected, projecting the order leaves the invoice under its key. -/
theorem invoice_suppresses_order : ∃ w w',
    Sequential countingRenderer "orders" emptyWorld [publishedRecord orderChange,
      publishedRecord invoiceChange, .projected invoiceChange (.ok ())] w ∧
    Program.Runs ProjectionStep w (applyProjection countingRenderer "orders" orderChange) (.ok ()) w' ∧
    ¬ ∃ document, w'.documents.get "orders" "42" = .ok (some document) ∧
      document.Renders countingRenderer order42 (w.log.stream order42) := by
  have both : ((projectOne invoiceChange ⟨orderAndInvoice, fun _ => none⟩).bind fun first =>
      (projectOne orderChange first.2).map fun second => (first.1.toOption, second.1.toOption,
        first.2.log.stream order42, second.2.documents ("orders", "42"))) =
      some (some (), some (), [placed 1], some ⟨"00000000000000000000000002", "1"⟩) := by
    decide +kernel
  obtain ⟨⟨r, w⟩, first, rest⟩ := Option.bind_eq_some_iff.mp both
  obtain ⟨⟨r', w'⟩, second, same⟩ := Option.map_eq_some_iff.mp rest
  simp only [Prod.mk.injEq] at same
  obtain ⟨succeeded, succeeded', stream, row⟩ := same
  cases r with
  | error e => cases succeeded
  | ok =>
      cases r' with
      | error e => cases succeeded'
      | ok =>
          refine ⟨w, w', .project invoice_published (projectOne_runs first), projectOne_runs second, ?_⟩
          rintro ⟨document, got, renders⟩
          obtain ⟨row', found, parsed⟩ := DocumentTable.row_of_get got
          cases row.symm.trans found
          have two : ((DocumentRow.mk "00000000000000000000000002" "1").document "42").toOption.map
              Document.revision = some (Revision.fromUlid 2) := by decide +kernel
          rw [parsed] at two
          have isTwo : document.revision = Revision.fromUlid 2 := Option.some.inj two
          rw [renders.revision, stream] at isTwo
          exact absurd isTwo (by decide +kernel)

end Orders
end WeeEvents.Projection
