import WeeEvents.Memory.Linearizability

/-!
# Entries and locks of running calls

An entry of the map without events belongs to a publish that is still on its way,
and so does every write lock. The phases of the running calls are the ghost.
-/
namespace WeeEvents.Memory
open Foundation

/-- The stream whose write lock a call holds in a phase. -/
def Phase.lock? : Phase → Option Stream
  | .locked s => some s
  | .checked s _ => some s
  | .minted s _ _ => some s
  | .leaving s _ => some s
  | _ => none

/-- The stream that a publish appends to unless it finds other events there. -/
def Phase.fills? (options : PublishOptions) : Phase → Option Stream
  | .found s => if met options [] then some s else none
  | .locked s => if met options [] then some s else none
  | .checked s _ => some s
  | .minted s _ _ => some s
  | _ => none

/-- A publish that will append to an empty stream `s`. -/
def Filling (k : Knowledge) (s : Stream) : Prop :=
  ∃ id options raws, k.call = some (.publish id options raws) ∧ raws ≠ [] ∧
    k.phase.fills? options = some s

/-- A publish that holds the write lock of `s`. -/
def Locking (k : Knowledge) (s : Stream) : Prop :=
  ∃ sc, k.call = some sc ∧ sc.readsOnly = false ∧ k.phase.lock? = some s

/-- The generator is asked while it accepts, or for a stream that has events. -/
def MintsFilled {Call Result : Type} (b : Backing) : MemoryEvent Call Result → Prop
  | .performed c _ (.mintEventIds count) _ =>
      Accepts b.generator count ∨ ∀ s, (b.cells s).writer = some c → (b.cells s).events ≠ []
  | _ => True

section Operations

variable {b b' : Backing} {c c' : Nat} {op : MemoryOp} {r : op.Res} {sc : EventStoreCall}
  {phase : Phase} {s : Stream}

/-- A lock is taken only by the operation that says so. -/
theorem serve_writer (step : serveMemory c op b = some (r, b'))
    (locked : (b'.cells s).writer = some c') :
    (b.cells s).writer = some c' ∧ op ≠ .unlock s ∨ c' = c ∧ op = .writeLock s := by
  cases serveMemory_effect step with
  | quiet streams cells other =>
      rw [cells] at locked
      exact .inl ⟨locked, (other s).2⟩
  | inserted absent =>
      refine .inl ⟨?_, by simp⟩
      by_cases new : s = b.streams.next
      · subst new
        rw [Backing.insert_cells_next] at locked
        cases locked
      · rw [Backing.insert_cells_ne absent new] at locked
        exact locked
  | @locked s' free =>
      by_cases same : s = s'
      · subst same
        rw [Backing.setWriter, Backing.setCell_self] at locked
        cases locked
        exact .inr ⟨rfl, rfl⟩
      · rw [Backing.setWriter, Backing.setCell_ne same] at locked
        exact .inl ⟨locked, by simp⟩
  | @unlocked s' =>
      by_cases same : s = s'
      · subst same
        rw [Backing.setWriter, Backing.setCell_self] at locked
        cases locked
      · rw [Backing.setWriter, Backing.setCell_ne same] at locked
        refine .inl ⟨locked, ?_⟩
        rintro ⟨⟩
        exact same rfl
  | extended =>
      rw [Backing.extend_writer] at locked
      exact .inl ⟨locked, by simp⟩

/-- A call keeps its lock until it unlocks. -/
theorem Phase.lock_learn (may : phase.May sc op) (held : phase.lock? = some s) :
    (phase.learn sc op r).lock? = some s ∨ op = .unlock s := by
  cases phase with
  | locked s' =>
      cases op <;> try exact may.elim
      cases held
      cases sc with
      | load id => exact .inl rfl
      | publish id options raws =>
          refine .inl ?_
          simp only [Phase.learn]
          split <;> rfl
  | checked s' events =>
      cases op <;> try exact may.elim
      obtain ⟨id, options, raws, rfl, _⟩ := may
      cases held
      cases r <;> exact .inl rfl
  | minted s' events recorded =>
      cases op <;> try exact may.elim
      exact .inl held
  | leaving s' result =>
      cases op <;> try exact may.elim
      cases held
      cases may
      exact .inr rfl
  | start => cases held
  | absent => cases held
  | found s' => cases held
  | answered result => cases held

/-- Streams only grow. -/
theorem serve_events_nil (step : serveMemory c op b = some (r, b'))
    (unallocated : ∀ s, b.streams.next ≤ s → b.cells s = {})
    (empty : (b'.cells s).events = []) : (b.cells s).events = [] := by
  cases serveMemory_effect step with
  | quiet streams cells other =>
      rw [cells] at empty
      exact empty
  | inserted absent =>
      by_cases new : s = b.streams.next
      · rw [unallocated s (le_of_eq new.symm)]
      · rw [Backing.insert_cells_ne absent new] at empty
        exact empty
  | locked free =>
      rw [Backing.setWriter_events] at empty
      exact empty
  | unlocked =>
      rw [Backing.setWriter_events] at empty
      exact empty
  | @extended s' events =>
      by_cases same : s = s'
      · subst same
        rw [Backing.extend, Backing.setCell_self] at empty
        exact (List.append_eq_nil_iff.mp empty).1
      · rw [Backing.extend, Backing.setCell_ne same] at empty
        exact empty

/-- A new entry is inserted by the operation that says so. -/
theorem serve_entry (step : serveMemory c op b = some (r, b')) {id : AggregateId}
    (entry : b'.streams.get id = some s) :
    b.streams.get id = some s ∨ op = .entryOrInsert id ∧ HEq r s := by
  cases serveMemory_effect step with
  | quiet streams cells other =>
      rw [streams] at entry
      exact .inl entry
  | @inserted id' absent =>
      by_cases same : id = id'
      · subst same
        rw [Backing.insert, StreamMap.get_insertNew_self] at entry
        cases entry
        exact .inr ⟨rfl, HEq.rfl⟩
      · rw [Backing.insert, StreamMap.get_insertNew_ne _ same] at entry
        exact .inl entry
  | locked free => exact .inl entry
  | unlocked => exact .inl entry
  | extended => exact .inl entry

end Operations

section Filling

variable {Call Result : Type} {b b' : Backing} {c : Nat} {call : Call} {op : MemoryOp} {r : op.Res}
  {phase : Phase} {s : Stream} {g : Ghost} {done : List Batch} {id : AggregateId}
  {options : PublishOptions} {raws : List RawEvent}

/-- As long as its stream stays empty, a publish on its way to it stays on its way. -/
theorem filling_learn (known : phase.Known c (.publish id options raws) g b done)
    (may : phase.May (.publish id options raws) op) (step : serveMemory c op b = some (r, b'))
    (permitted : MintsFilled b (.performed c call op r : MemoryEvent Call Result))
    (nonempty : raws ≠ []) (filling : phase.fills? options = some s)
    (empty : (b'.cells s).events = []) :
    (phase.learn (.publish id options raws) op r).fills? options = some s := by
  have appends : (EventStoreCall.publish id options raws).readsOnly = false := by
    simpa [EventStoreCall.readsOnly] using nonempty
  cases phase with
  | found s' =>
      cases op <;> try exact may.elim
      case readEvents s'' =>
        rw [may.2] at appends
        cases appends
      case writeLock s'' => exact filling
  | locked s' =>
      cases op <;> try exact may.elim
      case guardedEvents s'' =>
        cases step
        cases may
        by_cases fine : met options [] = true
        · have here : s' = s := by simpa [Phase.fills?, fine] using filling
          subst here
          simp only [Phase.learn, empty, fine, if_true]
          rfl
        · simp [Phase.fills?, fine] at filling
  | checked s' events =>
      cases op <;> try exact may.elim
      case mintEventIds count =>
        obtain ⟨_, _, _, same, rfl⟩ := may
        cases same
        obtain ⟨_, writing, _⟩ := known
        have here : s' = s := by simpa [Phase.fills?] using filling
        subst here
        have ok := mintEventIds_isOk raws.length b.generator
        cases step
        cases minted : (mintEventIds raws.length b.generator).1 with
        | ok ids => rfl
        | error e =>
            rw [minted] at ok
            rcases permitted with accepts | filled
            · cases ok.mpr accepts
            · exact absurd empty (filled s' writing.lock)
  | minted s' events recorded =>
      cases op <;> try exact may.elim
      case extendEvents s'' events' =>
        obtain ⟨rfl, rfl⟩ := may
        have here : s'' = s := by simpa [Phase.fills?] using filling
        subst here
        cases step
        rw [Backing.setCell_self] at empty
        obtain ⟨_, nothing⟩ := List.append_eq_nil_iff.mp empty
        have carries := (known.2.2.2.2.2 id options raws rfl).2
        rw [nothing, List.forall₂_nil_left_iff] at carries
        exact absurd carries nonempty
  | start => cases filling
  | absent => cases filling
  | leaving s' result => cases filling
  | answered result => cases filling

end Filling

/-! ### The layer over the store's rule -/

section Layer

variable {Call Result : Type} {behave : Call → Request Result}
  {mayInvoke : List (MemoryEvent Call Result) → Call → Prop} {m₀ : MemoryModel}
  {allowed : Backing → MemoryEvent Call Result → Prop} {phases : Nat → Option Knowledge}
  {trace : List (MemoryEvent Call Result)} {g : Ghost} {b b' : Backing} {c : Nat} {call : Call}

/-- Every phase belongs to a call that began and has not returned, every lock to
a publish, and every empty entry to a publish that fills it. -/
structure Tracked (behave : Call → Request Result)
    (mayInvoke : List (MemoryEvent Call Result) → Call → Prop)
    (allowed : Backing → MemoryEvent Call Result → Prop) (phases : Nat → Option Knowledge)
    (b : Backing) (trace : List (MemoryEvent Call Result)) : Prop where
  began : ∀ c k, phases c = some k → ∃ call,
    Pool.Open (S := clients behave mayInvoke) c call trace ∧ (behave call).call? = k.call
  locks : ∀ s c, (b.cells s).writer = some c → ∃ k, phases c = some k ∧ Locking k s
  entries : (∀ b event, allowed b event → MintsFilled b event) → ∀ id s,
    b.streams.get id = some s → (b.cells s).events = [] → ∃ c k, phases c = some k ∧ Filling k s

/-- The other calls stay open when one call begins, steps or returns. -/
theorem open_concat {c' : Nat} {call' : Call} {event : MemoryEvent Call Result}
    (began : Pool.Open (S := clients behave mayInvoke) c' call' trace)
    (other : ∀ call result, event ≠ .returned c' call result) :
    Pool.Open (S := clients behave mayInvoke) c' call' (trace ++ [event]) := by
  refine ⟨List.mem_append_left _ began.1, ?_⟩
  intro call result member
  rcases List.mem_append.mp member with old | new
  · exact began.2 call result old
  · exact other call result (List.mem_singleton.mp new).symm

theorem Tracked.invoke (h : Tracked behave mayInvoke allowed phases b trace)
    (fresh : Pool.Fresh (S := clients behave mayInvoke) c trace) :
    Tracked behave mayInvoke allowed
      (Function.update phases c (some (startingKnowledge (behave call)))) b
      (trace ++ [.invoked c call]) := by
  have unknown : ∀ k, phases c ≠ some k := by
    intro k known
    obtain ⟨call', began, _⟩ := h.began c k known
    exact fresh _ began.1 rfl
  have kept : ∀ {c' k}, phases c' = some k →
      Function.update phases c (some (startingKnowledge (behave call))) c' = some k := by
    intro c' k known
    have ne : c' ≠ c := by
      rintro rfl
      exact unknown k known
    rw [Function.update_of_ne ne, known]
  refine ⟨?_, ?_, ?_⟩
  · intro c' k known
    by_cases same : c' = c
    · subst same
      rw [Function.update_self] at known
      cases known
      refine ⟨call, ⟨List.mem_append_right _ (List.mem_singleton_self _), ?_⟩, rfl⟩
      intro call' result member
      have old : .returned c' call' result ∈ trace := by simpa using member
      exact fresh _ old rfl
    · rw [Function.update_of_ne same] at known
      obtain ⟨call', began, asks⟩ := h.began c' k known
      exact ⟨call', open_concat began (by simp), asks⟩
  · intro s c' locked
    obtain ⟨k, known, locking⟩ := h.locks s c' locked
    exact ⟨k, kept known, locking⟩
  · intro restricted id s entry empty
    obtain ⟨c', k, known, filling⟩ := h.entries restricted id s entry empty
    exact ⟨c', k, kept known, filling⟩

theorem Tracked.perform (h : Tracked behave mayInvoke allowed phases b trace)
    (consistent : Consistent behave m₀ g b trace)
    (began : Pool.Open (S := clients behave mayInvoke) c call trace) {sc : EventStoreCall}
    {k : Knowledge} {op : MemoryOp} {r : op.Res} (mine : phases c = some k)
    (request : (behave call).call? = k.call) (asks : k.call = some sc)
    (known : k.phase.Known c sc g b (appendedBatches behave trace)) (may : k.phase.May sc op)
    (permitted : allowed b (.performed c call op r)) (step : serveMemory c op b = some (r, b')) :
    Tracked behave mayInvoke allowed
      (Function.update phases c (some { k with phase := k.phase.learn sc op r })) b'
      (trace ++ [.performed c call op r]) := by
  refine ⟨?_, ?_, ?_⟩
  · intro c' k' known'
    by_cases same : c' = c
    · subst same
      rw [Function.update_self] at known'
      cases known'
      exact ⟨call, open_concat began (by simp), request⟩
    · rw [Function.update_of_ne same] at known'
      obtain ⟨call', began', asks'⟩ := h.began c' k' known'
      exact ⟨call', open_concat began' (by simp), asks'⟩
  · intro s c' locked
    rcases serve_writer step locked with ⟨before, other⟩ | ⟨rfl, rfl⟩
    · obtain ⟨k', known', locking⟩ := h.locks s c' before
      by_cases same : c' = c
      · subst same
        rw [mine] at known'
        cases known'
        obtain ⟨sc', asks', appends, held⟩ := locking
        rw [asks] at asks'
        cases asks'
        have stays := (Phase.lock_learn (r := r) may held).resolve_right other
        exact ⟨_, Function.update_self .., sc, asks, appends, stays⟩
      · exact ⟨k', by rw [Function.update_of_ne same, known'], locking⟩
    · -- the lock that this very operation took
      cases phase : k.phase with
      | found s' =>
          rw [phase] at may
          obtain ⟨rfl, appends⟩ := may
          refine ⟨_, Function.update_self .., sc, asks, by simpa using appends, ?_⟩
          rfl
      | _ =>
          rw [phase] at may
          exact may.elim
  · intro restricted id s entry empty
    rcases serve_entry step entry with old | ⟨rfl, same⟩
    · have before := serve_events_nil step consistent.mirrors.unallocated empty
      obtain ⟨c', k', known', filling⟩ := h.entries restricted id s old before
      by_cases same : c' = c
      · subst same
        rw [mine] at known'
        cases known'
        obtain ⟨id', options, raws, isPublish, nonempty, fills⟩ := filling
        rw [asks] at isPublish
        cases isPublish
        have still := filling_learn known may step (restricted _ _ permitted) nonempty fills empty
        exact ⟨c', _, Function.update_self .., id', options, raws, asks, nonempty, still⟩
      · exact ⟨c', k', by rw [Function.update_of_ne same, known'], filling⟩
    · -- the entry that this very operation inserted
      cases eq_of_heq same
      cases phase : k.phase with
      | absent =>
          rw [phase] at known
          obtain ⟨_, appends, fine⟩ := known
          cases sc with
          | load id' => cases appends
          | publish id' options raws =>
              have nonempty : raws ≠ [] := by
                rintro rfl
                cases appends
              refine ⟨c, _, Function.update_self .., id', options, raws, asks, nonempty, ?_⟩
              simp only [Phase.learn, Phase.fills?, fine id' options raws rfl, if_true]
      | _ =>
          rw [phase] at may
          exact may.elim

theorem Tracked.finish (h : Tracked behave mayInvoke allowed phases b trace) {k : Knowledge}
    {result : Result} (mine : phases c = some k) (request : (behave call).call? = k.call)
    (ended : requestDone (behave call) k result) :
    Tracked behave mayInvoke allowed (Function.update phases c none) b
      (trace ++ [.returned c call result]) := by
  have settled : ∀ sc, k.call = some sc → ∃ r, k.phase = .answered r := by
    intro sc asks
    cases made : behave call with
    | answered a =>
        rw [made, asks] at request
        cases request
    | storeCall sc' respond =>
        rw [made] at ended
        obtain ⟨r, answered, _⟩ := ended
        exact ⟨r, answered⟩
  refine ⟨?_, ?_, ?_⟩
  · intro c' k' known'
    have ne : c' ≠ c := by
      rintro rfl
      rw [Function.update_self] at known'
      cases known'
    rw [Function.update_of_ne ne] at known'
    obtain ⟨call', began', asks'⟩ := h.began c' k' known'
    refine ⟨call', open_concat began' ?_, asks'⟩
    rintro call'' result' ⟨⟩
    exact ne rfl
  · intro s c' locked
    obtain ⟨k', known', locking⟩ := h.locks s c' locked
    have ne : c' ≠ c := by
      rintro rfl
      rw [mine] at known'
      cases known'
      obtain ⟨sc, asks, _, held⟩ := locking
      obtain ⟨r, answered⟩ := settled sc asks
      rw [answered] at held
      cases held
    exact ⟨k', by rw [Function.update_of_ne ne, known'], locking⟩
  · intro restricted id s entry empty
    obtain ⟨c', k', known', filling⟩ := h.entries restricted id s entry empty
    have ne : c' ≠ c := by
      rintro rfl
      rw [mine] at known'
      cases known'
      obtain ⟨id', options, raws, asks, _, fills⟩ := filling
      obtain ⟨r, answered⟩ := settled _ asks
      rw [answered] at fills
      cases fills
    exact ⟨c', k', by rw [Function.update_of_ne ne, known'], filling⟩

/-- What the phases of the running calls say about locks and entries. -/
def trackedLayer (behave : Call → Request Result)
    (mayInvoke : List (MemoryEvent Call Result) → Call → Prop) (m₀ : MemoryModel)
    (allowed : Backing → MemoryEvent Call Result → Prop) :
    (memoryRule behave mayInvoke m₀ allowed).Layer (Nat → Option Knowledge) where
  inv := Tracked behave mayInvoke allowed
  holds phases c _ k _ _ := phases c = some k
  invoke {g phases s trace c call} _ tracked fresh _ := by
    have kept : Tracked behave mayInvoke allowed
        (Function.update phases c (some (startingKnowledge (behave call)))) s
        (trace ++ [.invoked c call]) := tracked.invoke fresh
    refine ⟨_, kept, Function.update_self .., ?_⟩
    intro c' call' k' ne _ known
    exact (Function.update_of_ne ne ..).trans known
  perform {g phases s trace c call k op r s'} consistent tracked began known mine may permitted
      step := by
    obtain ⟨sc, asks, allowedOp⟩ := may
    have advanced := tracked.perform consistent began mine known.1 asks (known.2 sc asks) allowedOp
      permitted step
    refine ⟨_, advanced, ?_, ?_⟩
    · simp only [phaseDiscipline, asks, Function.update_self]
    · intro c' call' k' ne _ known'
      exact (Function.update_of_ne ne ..).trans known'
  finish {g phases s trace c call k result} _ tracked _ known mine ended := by
    refine ⟨_, tracked.finish mine known.1 ended, ?_⟩
    intro c' call' k' ne _ known'
    exact (Function.update_of_ne ne ..).trans known'

/-- No publish is in progress. -/
def Quiet (p : Pool (clients behave mayInvoke)) : Prop :=
  ∀ c call prog, p.running c = some (call, prog) →
    ∀ id options raws, (behave call).call? ≠ some (.publish id options raws)

theorem tracked_of_reachable {gen : Generator} {p : Pool (clients behave mayInvoke)}
    (reach : Pool.ReachableBy allowed (Backing.new gen) p) :
    ∃ g phases, Consistent behave ⟨[], gen⟩ g p.shared p.trace ∧
      Tracked behave mayInvoke allowed phases p.shared p.trace := by
  have start : Tracked behave mayInvoke allowed (fun _ => none) (Backing.new gen) [] := by
    refine ⟨?_, ?_, ?_⟩
    · intro c k known
      cases known
    · intro s c locked
      cases locked
    · intro _ id s entry
      rw [Backing.new, StreamMap.get_empty] at entry
      cases entry
  let rule := (memoryRule behave mayInvoke ⟨[], gen⟩ allowed).extend
    (trackedLayer behave mayInvoke ⟨[], gen⟩ allowed)
  have init : rule.inv (⟨[], fun _ => []⟩, fun _ => none) _ [] := ⟨Consistent.initial behave gen, start⟩
  obtain ⟨⟨g, phases⟩, ⟨consistent, tracked⟩, _⟩ := rule.sound init reach
  exact ⟨g, phases, consistent, tracked⟩

/-- A phase in which a publish has work to do belongs to a running publish. -/
theorem Tracked.not_quiet {p : Pool (clients behave mayInvoke)}
    (h : Tracked behave mayInvoke allowed phases p.shared p.trace) {b₀ : Backing}
    (reach : Pool.ReachableBy allowed b₀ p) {k : Knowledge} (known : phases c = some k)
    {id : AggregateId} {options : PublishOptions} {raws : List RawEvent}
    (asks : k.call = some (.publish id options raws)) : ¬ Quiet p := by
  intro quiet
  obtain ⟨call, began, request⟩ := h.began c k known
  obtain ⟨prog, running⟩ := reach.open_running began
  exact quiet c call prog running id options raws (request.trans asks)

/-- Without a publish in progress no stream is locked. -/
theorem unlocked_of_quiet {gen : Generator} {p : Pool (clients behave mayInvoke)}
    (reach : Pool.ReachableBy allowed (Backing.new gen) p) (quiet : Quiet p) (s : Stream) :
    (p.shared.cells s).writer = none := by
  obtain ⟨_, phases, _, tracked⟩ := tracked_of_reachable reach
  cases locked : (p.shared.cells s).writer with
  | none => rfl
  | some c =>
      obtain ⟨k, known, sc, asks, appends, _⟩ := tracked.locks s c locked
      cases sc with
      | load id => cases appends
      | publish id options raws => exact absurd quiet (tracked.not_quiet reach known asks)

/-- Without a publish in progress, and with every mint accepted or for a stream
that has events, the entries of the map are the aggregates that have events. -/
theorem enumerated_of_quiet {gen : Generator} {p : Pool (clients behave mayInvoke)}
    (reach : Pool.ReachableBy MintsFilled (Backing.new gen) p) (quiet : Quiet p) (id : AggregateId) :
    id ∈ enumerateAggregates p.shared ↔ p.shared.events id ≠ [] := by
  obtain ⟨_, phases, _, tracked⟩ := tracked_of_reachable reach
  rw [mem_enumerateAggregates]
  cases entry : p.shared.streams.get id with
  | none => simp [Backing.events_of_absent entry]
  | some s =>
      rw [Backing.events_of_get entry]
      refine ⟨fun _ empty => ?_, fun _ => Option.some_ne_none s⟩
      obtain ⟨c, k, known, id', options, raws, asks, _⟩ :=
        tracked.entries (fun _ _ permitted => permitted) id s entry empty
      exact tracked.not_quiet reach known asks quiet

end Layer
end WeeEvents.Memory
