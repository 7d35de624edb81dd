import WeeEvents.Memory.Entries

/-!
# Failed publishes of the in-memory store

What a publish does to a store that no other publish is using, and when a
publish that fails leaves a trace: its entry stays when the generator refuses.
-/
namespace WeeEvents.Memory
open Foundation

/-! ### One publish alone -/

section Alone

variable {b : Backing} {c : Nat} {id : AggregateId} {options : PublishOptions}
  {raws : List RawEvent} {s : Stream}

/-- One operation of a program that runs alone. -/
theorem eval_memoryCall {α : Type} {op : MemoryOp} {next : op.Res → MemoryProgram α} {r : op.Res}
    {b' : Backing} (answer : serveMemory c op b = some (r, b')) :
    ((memoryCall op).bind next).eval (fun op b => serveMemory c op b) b =
      (next r).eval (fun op b => serveMemory c op b) b' := Program.eval_call answer

theorem Backing.setWriter_free (unlocked : (b.cells s).writer = none) (writer : Option Nat) :
    (b.setWriter s writer).setWriter s none = b := by
  have free : ({ b.cells s with writer := none } : StreamCell) = b.cells s := by
    rw [← unlocked]
  have cells : ((b.setWriter s writer).setWriter s none).cells = b.cells := by
    funext s'
    by_cases same : s' = s
    · subst same
      rw [Backing.setWriter, Backing.setCell_self, Backing.setWriter, Backing.setCell_self]
      exact free
    · rw [Backing.setWriter, Backing.setCell_ne same, Backing.setWriter, Backing.setCell_ne same]
  exact Backing.ext rfl cells rfl

theorem Backing.extend_free (unlocked : (b.cells s).writer = none) (writer : Option Nat)
    (events : List RecordedEvent) :
    ((b.setWriter s writer).extend s events).setWriter s none = b.extend s events := by
  have cells : (((b.setWriter s writer).extend s events).setWriter s none).cells =
      (b.extend s events).cells := by
    funext s'
    by_cases same : s' = s
    · subst same
      simp only [Backing.setWriter, Backing.extend, Backing.setCell_self, ← unlocked]
    · simp only [Backing.setWriter, Backing.extend, Backing.setCell_ne same]
  exact Backing.ext rfl cells rfl

/-- Minting for a stream, and the append when the generator does not refuse. -/
def mintInto (id : AggregateId) (options : PublishOptions) (raws : List RawEvent) (s : Stream)
    (b : Backing) : Except Error ChangeSet × Backing :=
  match mintEventIds raws.length b.generator with
  | (.error e, generator) => (.error (.custom (.monotonic e)), { b with generator })
  | (.ok ids, generator) =>
      let recorded := recordAll options.metadata raws ids
      (.ok ⟨id, lastRevision recorded, recorded⟩, { b.extend s recorded with generator })

theorem eval_mintAndAppend (unlocked : (b.cells s).writer = none) :
    (mintAndAppend id options raws s).eval (fun op b => serveMemory c op b)
      (b.setWriter s (some c)) = some (mintInto id options raws s b) := by
  cases mint : mintEventIds raws.length b.generator with
  | mk minted generator =>
      have answer : serveMemory c (.mintEventIds raws.length) (b.setWriter s (some c)) =
          some (minted, Backing.setWriter { b with generator } s (some c)) := by
        have sameGenerator : (b.setWriter s (some c)).generator = b.generator := rfl
        simp only [serveMemory, sameGenerator, mint]
        rfl
      have free : ((({ b with generator } : Backing)).cells s).writer = none := unlocked
      rw [mintAndAppend, eval_memoryCall answer]
      cases minted with
      | error e =>
          have released : serveMemory c (.unlock s)
              (Backing.setWriter { b with generator } s (some c)) =
                some ((), { b with generator }) :=
            congrArg some (congrArg (Prod.mk ()) (Backing.setWriter_free free (some c)))
          dsimp only
          rw [eval_memoryCall released]
          simp only [mintInto, mint, Program.eval_ret]
      | ok ids =>
          have released : serveMemory c (.unlock s)
              ((Backing.setWriter { b with generator } s (some c)).extend s
                (recordAll options.metadata raws ids)) =
                some ((), Backing.extend { b with generator } s
                  (recordAll options.metadata raws ids)) :=
            congrArg some (congrArg (Prod.mk ()) (Backing.extend_free free (some c) _))
          have extended : serveMemory c (.extendEvents s (recordAll options.metadata raws ids))
              (Backing.setWriter { b with generator } s (some c)) =
                some ((), (Backing.setWriter { b with generator } s (some c)).extend s
                  (recordAll options.metadata raws ids)) := rfl
          dsimp only
          rw [eval_memoryCall extended, eval_memoryCall released]
          simp only [mintInto, mint, Program.eval_ret]
          rfl

/-- The publish once its stream is found: a conflict, or the mint. -/
theorem eval_publishTo (unlocked : (b.cells s).writer = none) :
    (publishTo id options raws s).eval (fun op b => serveMemory c op b) b =
      if met options (b.cells s).events then some (mintInto id options raws s b)
      else some (.error (.revisionConflict (options.expectedRevision.getD Revision.zero)
        (lastRevision (b.cells s).events)), b) := by
  have taken : serveMemory c (.writeLock s) b = some ((), b.setWriter s (some c)) := by
    simp only [serveMemory, unlocked]
    rfl
  have seen : serveMemory c (.guardedEvents s) (b.setWriter s (some c)) =
      some ((b.cells s).events, b.setWriter s (some c)) := by
    rw [← Backing.setWriter_events (some c) s]
    rfl
  have released : serveMemory c (.unlock s) (b.setWriter s (some c)) = some ((), b) :=
    congrArg some (congrArg (Prod.mk ()) (Backing.setWriter_free unlocked (some c)))
  have body : (mintAndAppend id options raws s).eval (fun op b => serveMemory c op b)
      (b.setWriter s (some c)) = some (mintInto id options raws s b) := eval_mintAndAppend unlocked
  rw [publishTo, eval_memoryCall taken, eval_memoryCall seen]
  cases expecting : options.expectedRevision with
  | none =>
      have fine : met options (b.cells s).events = true := by simp [met, expecting]
      rw [if_pos fine]
      exact body
  | some expected =>
      dsimp only
      rw [matching_iff]
      by_cases same : expected = lastRevision (b.cells s).events
      · have fine : met options (b.cells s).events = true := by simp [met, expecting, same]
        rw [if_pos fine, decide_eq_true same]
        exact body
      · have stale : ¬ met options (b.cells s).events = true := by simp [met, expecting, same]
        rw [if_neg stale, decide_eq_false same]
        have actual : ((b.cells s).events.getLast?.map RecordedEvent.revision).getD Revision.zero =
            lastRevision (b.cells s).events := by
          unfold lastRevision
          cases (b.cells s).events.getLast? <;> rfl
        rw [actual]
        simp only [Bool.not_false, if_true, Option.getD_some]
        rw [eval_memoryCall released]
        rfl

theorem eval_load (unlocked : ∀ s, (b.cells s).writer = none) :
    (load id).eval (fun op b => serveMemory c op b) b =
      some (.ok (Aggregate.fromEvents id (b.events id)), b) := by
  have sync : (loadSync id).eval (fun op b => serveMemory c op b) b =
      some (Aggregate.fromEvents id (b.events id), b) := by
    rw [loadSync]
    cases entry : b.streams.get id with
    | none =>
        have found : serveMemory c (.get id) b = some (none, b) := by rw [← entry]; rfl
        rw [eval_memoryCall found, Backing.events_of_absent entry]
        rfl
    | some s =>
        have found : serveMemory c (.get id) b = some (some s, b) := by rw [← entry]; rfl
        have read : serveMemory c (.readEvents s) b = some ((b.cells s).events, b) := by
          simp only [serveMemory, unlocked s]
          rfl
        rw [eval_memoryCall found, Backing.events_of_get entry]
        dsimp only
        rw [eval_memoryCall read]
        cases (b.cells s).events <;> rfl
  rw [load, Program.eval_bind sync]
  rfl

theorem eval_currentRevision (unlocked : ∀ s, (b.cells s).writer = none) :
    (currentRevisionSync id).eval (fun op b => serveMemory c op b) b =
      some (lastRevision (b.events id), b) := by
  rw [currentRevisionSync]
  cases entry : b.streams.get id with
  | none =>
      have found : serveMemory c (.get id) b = some (none, b) := by rw [← entry]; rfl
      rw [eval_memoryCall found, Backing.events_of_absent entry]
      rfl
  | some s =>
      have found : serveMemory c (.get id) b = some (some s, b) := by rw [← entry]; rfl
      have read : serveMemory c (.readEvents s) b = some ((b.cells s).events, b) := by
        simp only [serveMemory, unlocked s]
        rfl
      have last : ((b.cells s).events.getLast?.map RecordedEvent.revision).getD Revision.zero =
          lastRevision (b.cells s).events := by
        unfold lastRevision
        cases (b.cells s).events.getLast? <;> rfl
      rw [eval_memoryCall found, Backing.events_of_get entry]
      dsimp only
      rw [eval_memoryCall read, last]
      rfl

theorem eval_publish_nothing (unlocked : ∀ s, (b.cells s).writer = none) :
    (publish id options []).eval (fun op b => serveMemory c op b) b =
      some (.ok ⟨id, lastRevision (b.events id), []⟩, b) := by
  rw [publish, if_pos List.isEmpty_nil, Program.eval_bind (eval_currentRevision unlocked)]
  rfl

/-- A publish whose expectation does not hold reports the conflict and changes nothing. -/
theorem eval_publish_conflict (unlocked : ∀ s, (b.cells s).writer = none) (nonempty : raws ≠ [])
    (stale : met options (b.events id) = false) :
    (publish id options raws).eval (fun op b => serveMemory c op b) b =
      some (.error (.revisionConflict (options.expectedRevision.getD Revision.zero)
        (lastRevision (b.events id))), b) := by
  have found : ∀ r, b.streams.get id = r → serveMemory c (.get id) b = some (r, b) := by
    rintro r rfl
    rfl
  have appends : ¬ raws.isEmpty = true := by simpa using nonempty
  rw [publish, if_neg appends, publishSync]
  cases entry : b.streams.get id with
  | none =>
      rw [Backing.events_of_absent entry] at stale ⊢
      cases expecting : options.expectedRevision with
      | none => simp [met, expecting] at stale
      | some expected =>
          have nonzero : expected.isZero = false := by
            have different : expected ≠ Revision.zero := by
              rw [met, expecting] at stale
              exact of_decide_eq_false stale
            simpa [← Bool.not_eq_true] using different
          rw [eval_memoryCall (found _ entry)]
          simp only [nonzero, Bool.not_false, if_true]
          rfl
  | some s =>
      rw [Backing.events_of_get entry] at stale ⊢
      rw [eval_memoryCall (found _ entry), eval_publishTo (unlocked s),
        if_neg (by rw [stale]; exact Bool.false_ne_true)]

/-- The store in which a publish mints: with an entry for its aggregate. -/
def WithEntry (id : AggregateId) (b b₁ : Backing) (s : Stream) : Prop :=
  b.streams.get id = some s ∧ b₁ = b ∨
    ∃ absent : b.streams.get id = none, s = b.streams.next ∧ b₁ = b.insert id absent

/-- A publish whose expectation holds makes its entry and mints. -/
theorem eval_publish_mints (unlocked : ∀ s, (b.cells s).writer = none) (nonempty : raws ≠ [])
    (fine : met options (b.events id) = true) :
    ∃ s b₁, WithEntry id b b₁ s ∧ (publish id options raws).eval (fun op b => serveMemory c op b) b =
      some (mintInto id options raws s b₁) := by
  have found : ∀ r, b.streams.get id = r → serveMemory c (.get id) b = some (r, b) := by
    rintro r rfl
    rfl
  have appends : ¬ raws.isEmpty = true := by simpa using nonempty
  rw [publish, if_neg appends, publishSync]
  cases entry : b.streams.get id with
  | some s =>
      rw [Backing.events_of_get entry] at fine
      refine ⟨s, b, .inl ⟨entry, rfl⟩, ?_⟩
      rw [eval_memoryCall (found _ entry)]
      dsimp only
      rw [eval_publishTo (unlocked s), if_pos fine]
  | none =>
      rw [Backing.events_of_absent entry] at fine
      have inserted : serveMemory c (.entryOrInsert id) b =
          some (b.streams.next, b.insert id entry) := by
        simp only [serveMemory]
        split
        · next s present =>
            rw [entry] at present
            cases present
        · rfl
      have free : ((b.insert id entry).cells b.streams.next).writer = none := by
        rw [Backing.insert_cells_next]
      have here : met options ((b.insert id entry).cells b.streams.next).events = true := by
        rw [Backing.insert_cells_next]
        exact fine
      have rest : ((streamFor id).bind fun stream => publishTo id options raws stream).eval
          (fun op b => serveMemory c op b) b =
            some (mintInto id options raws b.streams.next (b.insert id entry)) := by
        have again : (streamFor id).eval (fun op b => serveMemory c op b) b =
            some (b.streams.next, b.insert id entry) := by
          rw [streamFor, eval_memoryCall (found _ entry)]
          exact (Program.eval_call inserted).trans rfl
        rw [Program.eval_bind again, eval_publishTo free, if_pos here]
      refine ⟨b.streams.next, b.insert id entry, .inr ⟨entry, rfl, rfl⟩, ?_⟩
      rw [eval_memoryCall (found _ entry)]
      cases expecting : options.expectedRevision with
      | none => exact rest
      | some expected =>
          have zero : expected = Revision.zero := by
            rw [met, expecting] at fine
            exact of_decide_eq_true fine
          simp only [Revision.isZero_iff.mpr zero, Bool.not_true, Bool.false_eq_true, if_false]
          exact rest

end Alone

/-! ### What clients observe -/

/-- Loads and both enumerations return the same in two states of the store. -/
def SameObservations (b b' : Backing) : Prop :=
  (∀ c id, ((load id).eval (fun op b => serveMemory c op b) b').map Prod.fst =
    ((load id).eval (fun op b => serveMemory c op b) b).map Prod.fst) ∧
  enumerateAggregates b' = enumerateAggregates b ∧
  ∀ type, enumerateAggregatesByType b' type = enumerateAggregatesByType b type

/-- The publish makes an entry for a new aggregate, and then its mint is refused. -/
def LeavesEntry (b : Backing) (id : AggregateId) (options : PublishOptions) (raws : List RawEvent) :
    Prop :=
  id ∉ enumerateAggregates b ∧ raws ≠ [] ∧ met options [] = true ∧
    ¬ Accepts b.generator raws.length

theorem SameObservations.of_generator {b : Backing} (unlocked : ∀ s, (b.cells s).writer = none)
    (generator : Generator) : SameObservations b { b with generator } := by
  refine ⟨?_, rfl, fun _ => rfl⟩
  intro c id
  have still : ∀ s, ((({ b with generator } : Backing)).cells s).writer = none := unlocked
  rw [eval_load unlocked, eval_load still]
  rfl

/-- A publish that runs alone leaves a trace of its failure exactly when it left its entry. -/
theorem traceless_iff {b : Backing} (unlocked : ∀ s, (b.cells s).writer = none) (c : Nat)
    (id : AggregateId) (options : PublishOptions) (raws : List RawEvent) :
    ∃ result b', (publish id options raws).eval (fun op b => serveMemory c op b) b =
        some (result, b') ∧
      ((∀ e, result = .error e → SameObservations b b') ↔ ¬ LeavesEntry b id options raws) := by
  by_cases idle : raws = [] ∨ met options (b.events id) = false
  · have same : ∃ result, (publish id options raws).eval (fun op b => serveMemory c op b) b =
        some (result, b) := by
      by_cases empty : raws = []
      · subst empty
        exact ⟨_, eval_publish_nothing unlocked⟩
      · exact ⟨_, eval_publish_conflict unlocked empty (idle.resolve_left empty)⟩
    obtain ⟨result, same⟩ := same
    refine ⟨result, b, same, ?_⟩
    constructor
    · rintro _ ⟨absent, nonempty, fine, _⟩
      have missing : b.streams.get id = none := by simpa [mem_enumerateAggregates] using absent
      have stale := idle.resolve_left nonempty
      rw [Backing.events_of_absent missing, fine] at stale
      cases stale
    · intro _ e _
      exact ⟨fun _ _ => rfl, rfl, fun _ => rfl⟩
  · have nonempty : raws ≠ [] := fun empty => idle (.inl empty)
    have fine : met options (b.events id) = true := by
      by_contra stale
      exact idle (.inr (by simpa using stale))
    obtain ⟨s, b₁, entry, run⟩ := eval_publish_mints (c := c) unlocked nonempty fine
    have generator : b₁.generator = b.generator := by
      rcases entry with ⟨_, rfl⟩ | ⟨_, _, rfl⟩ <;> rfl
    have accepts := mintEventIds_isOk raws.length b.generator
    cases mint : mintEventIds raws.length b.generator with
    | mk minted g =>
        rw [mint] at accepts
        simp only [mintInto, generator, mint] at run
        cases minted with
        | ok ids =>
            refine ⟨_, _, run, ?_⟩
            constructor
            · rintro _ ⟨_, _, _, refused⟩
              exact refused (accepts.mp rfl)
            · rintro _ e ⟨⟩
        | error e =>
            refine ⟨_, _, run, ?_⟩
            have refused : ¬ Accepts b.generator raws.length := by
              intro all
              cases accepts.mpr all
            rcases entry with ⟨present, rfl⟩ | ⟨absent, rfl, rfl⟩
            · constructor
              · rintro _ ⟨missing, _⟩
                refine missing (mem_enumerateAggregates.mpr ?_)
                rw [present]
                exact Option.some_ne_none s
              · intro _ _ _
                exact SameObservations.of_generator unlocked g
            · -- the entry stays behind, and enumeration lists it
              have missing : id ∉ enumerateAggregates b := by
                simpa [mem_enumerateAggregates] using absent
              have listed : id ∈ enumerateAggregates { b.insert id absent with generator := g } := by
                refine mem_enumerateAggregates.mpr ?_
                have entry : (b.insert id absent).streams.get id = some b.streams.next :=
                  StreamMap.get_insertNew_self absent
                exact ne_of_eq_of_ne entry (Option.some_ne_none _)
              constructor
              · intro same _
                have observed := (same _ rfl).2.1
                rw [observed] at listed
                exact missing listed
              · intro left
                rw [Backing.events_of_absent absent] at fine
                exact absurd ⟨missing, nonempty, fine, refused⟩ left

/-- A failed publish leaves no trace unless it left its entry, and where no mint
is refused for a stream without events, the entries are the aggregates with events. -/
theorem failed_publish_leaves_no_trace (gen : Generator) :
    (∀ p : Pool memoryThreads, Pool.Reachable (Backing.new gen) p → Quiet p →
      ∀ c id options raws, ∃ result b',
        (publish id options raws).eval (fun op b => serveMemory c op b) p.shared =
            some (result, b') ∧
          ((∀ e, result = .error e → SameObservations p.shared b') ↔
            ¬ LeavesEntry p.shared id options raws)) ∧
    ∀ p : Pool memoryThreads, Pool.ReachableBy MintsFilled (Backing.new gen) p → Quiet p →
      ∀ id, id ∈ enumerateAggregates p.shared ↔ p.shared.events id ≠ [] := by
  constructor
  · intro p reach quiet c id options raws
    exact traceless_iff (unlocked_of_quiet reach quiet) c id options raws
  · intro p reach quiet id
    exact enumerated_of_quiet reach quiet id

/-! ### A store that has been used, and a generator that refuses -/

section Examples

theorem quiet_of_idle {p : Pool memoryThreads} (idle : ∀ c, p.running c = none) : Quiet p := by
  intro c call prog running
  rw [idle c] at running
  cases running

theorem counter_failures_leave_no_trace : ∃ p : Pool memoryThreads, ∃ result b',
    (p.shared.events counterId).length = 3 ∧
      (publish counterId { expectedRevision := some Revision.zero } [incremented]).eval
        (fun op b => serveMemory 3 op b) p.shared = some (result, b') ∧
      (∀ e, result = .error e → SameObservations p.shared b') ∧
      (counterId ∈ enumerateAggregates (Pool.initial (S := memoryThreads) (Backing.new .refusing)).shared ↔
        (Backing.new .refusing).events counterId ≠ []) := by
  have three : (counterRun.map fun run => (run.2.events counterId).length) = some 3 := by
    decide +kernel
  obtain ⟨⟨results, b'⟩, run, length⟩ := Option.map_eq_some_iff.mp three
  obtain ⟨p, reach, rfl, idle, _⟩ := clients_inOrder run
  obtain ⟨result, b', ran, iff⟩ := (failed_publish_leaves_no_trace _).1 p reach
    (quiet_of_idle idle) 3 counterId { expectedRevision := some Revision.zero } [incremented]
  have present : counterId ∈ enumerateAggregates p.shared := by
    rw [mem_enumerateAggregates]
    intro missing
    rw [Backing.events_of_absent missing] at length
    cases length
  refine ⟨p, result, b', length, ran, iff.mpr fun left => left.1 present, ?_⟩
  exact (failed_publish_leaves_no_trace .refusing).2 _ .start (quiet_of_idle fun _ => rfl) counterId

/-- The first publish to a new aggregate fails, and the aggregate is enumerated from then on. -/
theorem phantom_entry : ∃ e b', Pool.Reachable (S := memoryThreads) (Backing.new .refusing)
      (Pool.initial (Backing.new .refusing)) ∧
    (publish counterId {} [incremented]).eval (fun op b => serveMemory 0 op b)
        (Backing.new .refusing) = some (.error e, b') ∧
      enumerateAggregates (Backing.new .refusing) = [] ∧ enumerateAggregates b' = [counterId] ∧
        b'.events counterId = [] := by
  have run : ∃ b', (publish counterId {} [incremented]).eval (fun op b => serveMemory 0 op b)
      (Backing.new .refusing) = some (.error (.custom (.monotonic .overflow)), b') ∧
        enumerateAggregates b' = [counterId] ∧ b'.events counterId = [] := ⟨_, rfl, rfl, rfl⟩
  obtain ⟨b', ran, listed, empty⟩ := run
  exact ⟨_, b', .start, ran, rfl, listed, empty⟩

end Examples
end WeeEvents.Memory
