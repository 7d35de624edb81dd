import WeeEvents.Memory.Run

/-!
# The in-memory store is linearizable

Threads that use clones of one store see the results of some sequential order.
-/
namespace WeeEvents.Memory
open Foundation

/-- Threads that call `load` and `publish` on clones of one store. -/
abbrev memoryThreads : System :=
  clients (fun call : EventStoreCall => .storeCall call fun r => r) fun _ _ => True

section State

variable {Call Result : Type} {behave : Call → Request Result} {gen : Generator} {g : Ghost}
  {b : Backing} {trace : List (MemoryEvent Call Result)}

theorem minted_new (gen : Generator) : Minted ⟨[], gen⟩ := by
  refine ⟨List.Pairwise.nil, ?_, ?_⟩
  · intro text member
    cases member
  · intro entry member
    cases member

/-- What the store holds is the beginning of the object's stream. -/
theorem Consistent.events_prefix (h : Consistent behave ⟨[], gen⟩ g b trace) (id : AggregateId) :
    b.events id <+: (memoryObject.after ⟨[], gen⟩ g.order).log.stream id := by
  cases entry : b.streams.get id with
  | none =>
      rw [Backing.events_of_absent entry]
      exact List.nil_prefix
  | some s =>
      rw [Backing.events_of_get entry, h.mirrors.present id s entry]
      exact List.prefix_append _ _

theorem Consistent.increasing (h : Consistent behave ⟨[], gen⟩ g b trace) (id : AggregateId) :
    Increasing RecordedEvent.revision (b.events id) := by
  have minted := (minted_new gen).after g.order
  exact (minted.stream_increasing id).of_isPrefix (h.events_prefix id)

theorem Consistent.mem_log (h : Consistent behave ⟨[], gen⟩ g b trace) {id : AggregateId} {i : Nat}
    {e : RecordedEvent} (at_i : (b.events id)[i]? = some e) :
    (id, e) ∈ (memoryObject.after ⟨[], gen⟩ g.order).log := by
  have member : e ∈ b.events id := List.mem_of_getElem? at_i
  exact EventLog.mem_stream.mp ((h.events_prefix id).subset member)

/-- No two places of the store share an event id or a revision. -/
theorem Consistent.distinct (h : Consistent behave ⟨[], gen⟩ g b trace) {id id' : AggregateId}
    {i j : Nat} {e e' : RecordedEvent} (at_i : (b.events id)[i]? = some e)
    (at_j : (b.events id')[j]? = some e') :
    (e.eventId = e'.eventId ∨ e.revision = e'.revision → id = id' ∧ i = j) ∧
      e.eventId.text ≠ e'.revision.text := by
  have minted := (minted_new gen).after g.order
  obtain ⟨same_entry, apart⟩ := minted.distinct (h.mem_log at_i) (h.mem_log at_j)
  refine ⟨?_, apart⟩
  intro shared
  obtain ⟨rfl, rfl⟩ := Prod.mk.inj (same_entry shared)
  have nodup : (b.events id).Nodup := by
    refine (h.increasing id).imp ?_
    rintro x y lt rfl
    exact lt_irrefl _ lt
  have bound : i < (b.events id).length := (List.getElem?_eq_some_iff.mp at_i).1
  exact ⟨rfl, (List.getElem?_inj bound nodup).mp (at_i.trans at_j.symm)⟩

end State

/-- When the object lets a publish that expects a revision through. -/
theorem memoryObject_expected {m : MemoryModel} {id : AggregateId} {options : PublishOptions}
    {raws : List RawEvent} {e : Revision} (nonempty : raws ≠ [])
    (expecting : options.expectedRevision = some e) :
    (∃ changeset, (memoryObject.apply (.publish id options raws) m).1 =
        .published (.ok changeset)) ↔
      lastRevision (m.log.stream id) = e ∧ Accepts m.generator raws.length := by
  have appends : (EventStoreCall.publish id options raws).readsOnly = false := by
    simpa [EventStoreCall.readsOnly] using nonempty
  by_cases same : lastRevision (m.log.stream id) = e
  · have fine : met options (m.log.stream id) = true := by
      rw [met, expecting]
      exact decide_eq_true same.symm
    have accepts := mintEventIds_isOk raws.length m.generator
    cases mint : mintEventIds raws.length m.generator with
    | mk minted gen =>
        rw [mint] at accepts
        cases minted with
        | error error =>
            have refused : ¬ Accepts m.generator raws.length := by
              intro all
              cases accepts.mpr all
            rw [memoryObject_refused appends fine mint]
            constructor
            · rintro ⟨changeset, ok⟩
              cases ok
            · rintro ⟨_, all⟩
              exact absurd all refused
        | ok ids =>
            rw [memoryObject_appends appends fine mint]
            exact ⟨fun _ => ⟨same, accepts.mp rfl⟩, fun _ => ⟨_, rfl⟩⟩
  · have stale : met options (m.log.stream id) = false := by
      rw [met, expecting]
      exact decide_eq_false fun eq => same eq.symm
    rw [memoryObject_conflict appends stale]
    constructor
    · rintro ⟨changeset, ok⟩
      cases ok
    · rintro ⟨current, _⟩
      exact absurd current same

/-- Every reachable state of the threads is explained by a sequential order, its
streams are increasing, its ids and revisions are pairwise distinct, and each
change set returned stands together in its stream. -/
theorem memory_store_linearizable {gen : Generator} {p : Pool memoryThreads}
    (reach : Pool.Reachable (Backing.new gen) p) :
    (∃ order : List (Completed EventStoreCall EventStoreResult),
      Linearization memoryObject ⟨[], gen⟩ p.trace order ∧
      (∀ entry ∈ order, .invoked entry.caller entry.call ∈ p.trace) ∧
      (∀ c call result, .returned c call result ∈ p.trace → ⟨c, call, result⟩ ∈ order) ∧
      ∀ before c id options raws result later e,
        order = before ++ ⟨c, .publish id options raws, result⟩ :: later →
        options.expectedRevision = some e → raws ≠ [] →
          ((∃ changeset, result = .published (.ok changeset)) ↔
            lastRevision ((memoryObject.after ⟨[], gen⟩ before).log.stream id) = e ∧
              Accepts (memoryObject.after ⟨[], gen⟩ before).generator raws.length)) ∧
      (∀ id, Increasing RecordedEvent.revision (p.shared.events id)) ∧
      (∀ (id id' : AggregateId) (i j : Nat) (e e' : RecordedEvent), (p.shared.events id)[i]? = some e →
        (p.shared.events id')[j]? = some e' →
        (e.eventId = e'.eventId ∨ e.revision = e'.revision → id = id' ∧ i = j) ∧
          e.eventId.text ≠ e'.revision.text) ∧
      ∀ c id options raws changeset,
        .returned c (.publish id options raws) (.published (.ok changeset)) ∈ p.trace →
          changeset.aggregateId = id ∧ changeset.events <:+: p.shared.events id ∧
            List.Forall₂ (fun event raw => event.Carries options.metadata raw)
              changeset.events raws := by
  obtain ⟨g, h⟩ := reachable_consistent reach
  refine ⟨⟨g.order, h.linear, ?_, ?_, ?_⟩, h.increasing, ?_, ?_⟩
  · intro entry member
    obtain ⟨call, invoked, asks⟩ := h.own entry member
    cases asks
    exact invoked
  · intro c call result returned
    obtain ⟨r, effect, _, rfl⟩ := h.complete c call result returned
    exact effect
  · intro before c id options raws result later e split expecting nonempty
    have legal := h.linear.legal before _ later split
    rw [← memoryObject_expected nonempty expecting, legal]
  · intro id id' i j e e' at_i at_j
    exact h.distinct at_i at_j
  · intro c id options raws changeset returned
    obtain ⟨r, _, settled, same⟩ := h.complete c _ _ returned
    have same : r = .published (.ok changeset) := same.symm
    rw [same] at settled
    cases settled with
    | appended nonempty member =>
        have together := infix_streamOf member
        obtain ⟨earlier, later, split⟩ := List.append_of_mem member
        rw [h.holds id]
        exact ⟨rfl, together, (h.follows earlier _ later split).carries⟩
    | nothing absent => exact ⟨rfl, List.nil_infix, .nil⟩

/-! ### Runs on one aggregate -/

section Examples

def counterId : AggregateId := ⟨⟨"counter"⟩, "a"⟩

def incremented : RawEvent := ⟨⟨"incremented"⟩, ⟨.json, []⟩⟩

/-- A blind publish, one on top of it, and one that expects an empty stream. -/
def counterRun : Option (List EventStoreResult × Backing) :=
  Pool.runInOrder (S := memoryThreads) (fun c _ op b => serveMemory c op b) 0
    [.publish counterId {} [incremented],
      .publish counterId { expectedRevision := some (Revision.fromUlid 1) } [incremented, incremented],
      .publish counterId { expectedRevision := some Revision.zero } [incremented]]
    (Backing.new (.countingFrom 0))

theorem counter_linearizable : ∃ p : Pool memoryThreads,
    Pool.Reachable (Backing.new (.countingFrom 0)) p ∧ (p.shared.events counterId).length = 3 ∧
      Increasing RecordedEvent.revision (p.shared.events counterId) := by
  have three : (counterRun.map fun run => (run.2.events counterId).length) = some 3 := by
    decide +kernel
  obtain ⟨⟨results, b'⟩, run, length⟩ := Option.map_eq_some_iff.mp three
  obtain ⟨p, reach, rfl, _⟩ := clients_inOrder run
  exact ⟨p, reach, length, (memory_store_linearizable reach).2.1 counterId⟩

def expectEmpty : EventStoreCall :=
  .publish counterId { expectedRevision := some Revision.zero } [incremented]

/-- The generator refuses the only call, although in every order of the calls it
expects the last revision of the stream it finds. -/
theorem refused_on_the_current_revision : ∃ p : Pool memoryThreads,
    Pool.Reachable (Backing.new .refusing) p ∧
      .returned 0 expectEmpty (.published (.error (.custom (.monotonic .overflow)))) ∈ p.trace ∧
      ∀ order, Linearization memoryObject ⟨[], .refusing⟩ p.trace order →
        ∀ before result later, order = before ++ ⟨0, expectEmpty, result⟩ :: later →
          Revision.zero = lastRevision
            ((memoryObject.after ⟨[], .refusing⟩ before).log.stream counterId) := by
  have begin : Pool.ReachableBy (S := memoryThreads) (fun _ _ => True) (Backing.new .refusing)
      (Pool.initial (Backing.new .refusing)) := .start
  have fresh : ∀ c, Pool.Fresh (S := memoryThreads) c [] := by
    intro c event member
    cases member
  have run : ∃ b', Program.eval (fun op b => serveMemory 0 op b) (memoryThreads.program expectEmpty)
      (Backing.new .refusing) = some (.published (.error (.custom (.monotonic .overflow))), b') :=
    ⟨_, rfl⟩
  obtain ⟨b', run⟩ := run
  obtain ⟨q, reach, _, _, _, returned, others⟩ := begin.solo (fun _ _ _ => ⟨trivial, fun _ => trivial⟩)
    (fresh 0) trivial ((Program.runs_iff_eval.mpr run).mono fun _ _ _ _ served => ⟨served, trivial⟩)
  refine ⟨q, reach, returned, ?_⟩
  intro order linear before result later split
  -- no other call began, so none stands before this one
  have nothing : before = [] := by
    rw [List.eq_nil_iff_forall_not_mem]
    intro entry member
    have mine : entry.caller ≠ 0 := by
      have once := linear.once
      rw [split, List.map_append, List.map_cons] at once
      have apart := List.disjoint_of_nodup_append once
      intro same
      exact apart (List.mem_map_of_mem member) (by rw [same]; exact List.mem_cons_self ..)
    obtain ⟨call, invoked⟩ := linear.begun entry (by rw [split]; exact List.mem_append_left _ member)
    exact others entry.caller mine (fresh _) _ invoked rfl
  rw [nothing]
  rfl

end Examples
end WeeEvents.Memory
