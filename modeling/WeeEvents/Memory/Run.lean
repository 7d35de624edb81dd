import WeeEvents.Memory.Invariant

/-!
# Every run keeps the invariant

One lemma for each operation a call may perform in its phase: what it does to
the order of effects and to the backing store, and where the call stands then.
-/
namespace WeeEvents.Memory
open Foundation

/-! ### What the object answers -/

section Object

variable {m : MemoryModel} {call : EventStoreCall} {id : AggregateId} {options : PublishOptions}
  {raws : List RawEvent}

theorem memoryObject_reads (reads : call.readsOnly = true) :
    memoryObject.apply call m = (readAnswer call (m.log.stream call.target), m) := by
  cases call with
  | load id => rfl
  | publish id options raws =>
      have empty : raws.isEmpty = true := reads
      simp only [memoryObject, empty, if_true]
      rfl

theorem memoryObject_conflict (appends : (EventStoreCall.publish id options raws).readsOnly = false)
    (stale : met options (m.log.stream id) = false) :
    memoryObject.apply (.publish id options raws) m = (conflict options (m.log.stream id), m) := by
  have nonempty : raws.isEmpty = false := appends
  have unmet : options.expectedRevision.all (· = lastRevision (m.log.stream id)) = false := stale
  simp only [memoryObject, nonempty, unmet, Bool.false_eq_true, if_false]
  rfl

theorem memoryObject_refused (appends : (EventStoreCall.publish id options raws).readsOnly = false)
    (fine : met options (m.log.stream id) = true) {e : MonotonicError} {g : Generator}
    (mint : mintEventIds raws.length m.generator = (.error e, g)) :
    memoryObject.apply (.publish id options raws) m =
      (.published (.error (.custom (.monotonic e))), { m with generator := g }) := by
  have nonempty : raws.isEmpty = false := appends
  have fine : options.expectedRevision.all (· = lastRevision (m.log.stream id)) = true := fine
  simp only [memoryObject, nonempty, fine, mint, Bool.false_eq_true, if_false, if_true]

theorem memoryObject_appends (appends : (EventStoreCall.publish id options raws).readsOnly = false)
    (fine : met options (m.log.stream id) = true) {ids : List (EventId × Revision)} {g : Generator}
    (mint : mintEventIds raws.length m.generator = (.ok ids, g)) :
    memoryObject.apply (.publish id options raws) m =
      (.published (.ok ⟨id, lastRevision (recordAll options.metadata raws ids),
        recordAll options.metadata raws ids⟩),
        ⟨m.log ++ entries id (recordAll options.metadata raws ids), g⟩) := by
  have nonempty : raws.isEmpty = false := appends
  have fine : options.expectedRevision.all (· = lastRevision (m.log.stream id)) = true := fine
  simp only [memoryObject, nonempty, fine, mint, Bool.false_eq_true, if_false, if_true]

/-- Reading what the batches recorded settles a call that appends nothing. -/
theorem settled_readAnswer {c : Nat} {done : List Batch} {b : Backing} (holds : b.Holds done)
    (absent : c ∉ done.map Batch.call) (reads : call.readsOnly = true) :
    Settled c done call (readAnswer call (b.events call.target)) := by
  cases call with
  | load id =>
      rw [holds]
      exact .loaded (List.prefix_refl _) absent
  | publish id options raws =>
      have empty : raws = [] := List.isEmpty_iff.mp reads
      subst empty
      exact .nothing absent

end Object

section Steps

variable {Call Result : Type} {behave : Call → Request Result}
  {mayInvoke : List (MemoryEvent Call Result) → Call → Prop} {m₀ : MemoryModel}
  {trace : List (MemoryEvent Call Result)} {g : Ghost} {b b' : Backing} {c : Nat} {call : Call}
  {sc : EventStoreCall} {s : Stream}

/-- One operation took a call to its next phase and kept the invariant. -/
def Advances (behave : Call → Request Result) (m₀ : MemoryModel) (c : Nat) (call : Call)
    (sc : EventStoreCall) (g : Ghost) (b : Backing) (trace : List (MemoryEvent Call Result))
    (op : MemoryOp) (r : op.Res) (b' : Backing) (phase : Phase) : Prop :=
  ∃ g', Consistent behave m₀ g' b' (trace ++ [.performed c call op r]) ∧
    phase.Known c sc g' b' (appendedBatches behave (trace ++ [.performed c call op r])) ∧
    Undisturbed c g b (appendedBatches behave trace) g' b'
      (appendedBatches behave (trace ++ [.performed c call op r]))

/-- An operation without effect on the object. -/
theorem Consistent.quiet (h : Consistent behave m₀ g b trace)
    (began : Pool.Open (S := clients behave mayInvoke) c call trace) {op : MemoryOp} {r : op.Res}
    (silent : Silent behave (.performed c call op r))
    (mirrors : Mirrors (memoryObject.after m₀ g.order) g.pending b')
    (events : ∀ id, b'.events id = b.events id)
    (entries : ∀ id s, b.streams.get id = some s → b'.streams.get id = some s)
    (cells : ∀ s c', c' ≠ c → (b.cells s).writer = some c' → b'.cells s = b.cells s)
    {phase : Phase} (known : phase.Known c sc g b' (appendedBatches behave trace)) :
    Advances behave m₀ c call sc g b trace op r b' phase := by
  have still : Undisturbed c g b (appendedBatches behave trace) g b' (appendedBatches behave trace) :=
    { order := ⟨[], (List.append_nil _).symm, by simp⟩
      done := ⟨[], (List.append_nil _).symm, by simp⟩
      entries := entries
      cells := fun s c' ne locked => ⟨cells s c' ne locked, rfl⟩ }
  have kept := h.perform began silent still h.linear (fun entry new old => absurd new old) mirrors
    events
  refine ⟨g, kept, ?_, ?_⟩
  · rw [silent.batches]
    exact known
  · rw [silent.batches]
    exact still

/-- An operation at which the call takes its effect on the object. -/
theorem Consistent.point (h : Consistent behave m₀ g b trace)
    (began : Pool.Open (S := clients behave mayInvoke) c call trace) {op : MemoryOp} {r : op.Res}
    (asks : (behave call).call? = some sc) (silent : Silent behave (.performed c call op r))
    (absent : c ∉ g.order.map Completed.caller) {result : EventStoreResult} {m : MemoryModel}
    (effect : memoryObject.apply sc (memoryObject.after m₀ g.order) = (result, m))
    {pending : Pending} (mirrors : Mirrors m pending b') (events : ∀ id, b'.events id = b.events id)
    (entries : b'.streams = b.streams) (cells : b'.cells = b.cells)
    (others : ∀ s c', c' ≠ c → (b.cells s).writer = some c' → pending s = g.pending s)
    {phase : Phase}
    (known : phase.Known c sc ⟨g.order ++ [⟨c, sc, result⟩], pending⟩ b'
      (appendedBatches behave trace)) :
    Advances behave m₀ c call sc g b trace op r b' phase := by
  have still : Undisturbed c g b (appendedBatches behave trace)
      ⟨g.order ++ [⟨c, sc, result⟩], pending⟩ b' (appendedBatches behave trace) := by
    refine ⟨⟨[⟨c, sc, result⟩], rfl, ?_⟩, ⟨[], (List.append_nil _).symm, by simp⟩, ?_, ?_⟩
    · intro entry member
      rw [List.mem_singleton.mp member]
    · intro id s entry
      rw [entries]
      exact entry
    · intro s c' ne locked
      exact ⟨congrFun cells s, others s c' ne locked⟩
  have linear : Linearization memoryObject m₀ trace (g.order ++ [⟨c, sc, result⟩]) :=
    h.linear.point ⟨call, began.1⟩ began.2 absent (by rw [effect])
  have after : memoryObject.after m₀ (g.order ++ [⟨c, sc, result⟩]) = m := by
    rw [SequentialObject.after_concat, effect]
  have kept : Consistent behave m₀ ⟨g.order ++ [⟨c, sc, result⟩], pending⟩ b'
      (trace ++ [.performed c call op r]) :=
    h.perform began silent still linear ?_ (by rw [after]; exact mirrors) events
  · refine ⟨_, kept, ?_, ?_⟩
    · rw [silent.batches]
      exact known
    · rw [silent.batches]
      exact still
  · intro entry member old
    rcases List.mem_append.mp member with before | new
    · exact absurd before old
    · rw [List.mem_singleton.mp new]
      exact ⟨rfl, asks⟩

variable (h : Consistent behave m₀ g b trace)
  (began : Pool.Open (S := clients behave mayInvoke) c call trace)

include h began

/-! ### Without effect on the object -/

theorem advances_get_again {id : AggregateId} (target : id = sc.target) {r : Option Stream}
    (found : b.streams.get id = r)
    (known : Phase.absent.Known c sc g b (appendedBatches behave trace)) :
    Advances behave m₀ c call sc g b trace (.get id) r b (Phase.absent.learn sc (.get id) r) := by
  subst target
  have silent : Silent behave (.performed c call (.get sc.target) r) := rfl
  cases r with
  | some s =>
      exact h.quiet began silent h.mirrors (fun _ => rfl) (fun _ _ entry => entry)
        (fun _ _ _ _ => rfl) ⟨known.1, found⟩
  | none =>
      exact h.quiet began silent h.mirrors (fun _ => rfl) (fun _ _ entry => entry)
        (fun _ _ _ _ => rfl) known

theorem advances_entryOrInsert {id : AggregateId} (target : id = sc.target)
    (step : serveMemory c (.entryOrInsert id) b = some (s, b'))
    (untouched : Untouched c g (appendedBatches behave trace)) :
    Advances behave m₀ c call sc g b trace (.entryOrInsert id) s b' (.found s) := by
  subst target
  have silent : Silent behave (.performed c call (.entryOrInsert sc.target) s) := rfl
  rcases serveMemory_entryOrInsert step with ⟨entry, rfl⟩ | ⟨absent, rfl, rfl⟩
  · exact h.quiet began silent h.mirrors (fun _ => rfl) (fun _ _ entry => entry)
      (fun _ _ _ _ => rfl) ⟨untouched, entry⟩
  · have cells := h.mirrors.insert_cells absent
    refine h.quiet began silent (h.mirrors.insert absent) (h.mirrors.insert_events absent)
      (fun _ _ entry => StreamMap.get_insertNew_of_get absent entry) ?_ ⟨untouched, ?_⟩
    · intro s' c' _ _
      rw [cells]
    · exact StreamMap.get_insertNew_self absent

theorem advances_writeLock (step : serveMemory c (.writeLock s) b = some ((), b'))
    (untouched : Untouched c g (appendedBatches behave trace))
    (entry : b.streams.get sc.target = some s) (appends : sc.readsOnly = false) :
    Advances behave m₀ c call sc g b trace (.writeLock s) () b' (.locked s) := by
  simp only [serveMemory] at step
  split at step
  · cases step
  · next unlocked =>
      cases step
      have idle : (b.cells s).writer = none := by simpa using unlocked
      have settled : g.pending s = [] := h.mirrors.idle s idle
      have silent : Silent behave (.performed c call (.writeLock s) ()) := rfl
      refine h.quiet began silent (h.mirrors.setWriter entry settled (some c))
        (Backing.events_setWriter (some c)) (fun _ _ entry => entry) ?_
        ⟨untouched, ⟨entry, ?_, settled⟩, appends⟩
      · intro s' c' ne locked
        have apart : s' ≠ s := by
          rintro rfl
          rw [idle] at locked
          cases locked
        exact Backing.setCell_ne apart _
      · rw [Backing.setWriter, Backing.setCell_self]

theorem advances_unlock {result : EventStoreResult} (step : serveMemory c (.unlock s) b = some ((), b'))
    (known : (Phase.leaving s result).Known c sc g b (appendedBatches behave trace)) :
    Advances behave m₀ c call sc g b trace (.unlock s) () b' (.answered result) := by
  cases step
  obtain ⟨writing, _, effect, settled⟩ := known
  have silent : Silent behave (.performed c call (.unlock s) ()) := rfl
  refine h.quiet began silent (h.mirrors.setWriter writing.entry writing.pending none)
    (Backing.events_setWriter none) (fun _ _ entry => entry) ?_ ⟨effect, settled⟩
  intro s' c' ne locked
  have apart : s' ≠ s := by
    rintro rfl
    rw [writing.lock] at locked
    cases locked
    exact ne rfl
  exact Backing.setCell_ne apart _

variable (asks : (behave call).call? = some sc)

include asks

/-! ### Reading -/

/-- A call that appends nothing takes its effect where it reads. -/
theorem advances_read {op : MemoryOp} {r : op.Res} (silent : Silent behave (.performed c call op r))
    (untouched : Untouched c g (appendedBatches behave trace)) (reads : sc.readsOnly = true)
    (settled : ∀ s, b.streams.get sc.target = some s → g.pending s = []) :
    Advances behave m₀ c call sc g b trace op r b
      (.answered (readAnswer sc (b.events sc.target))) := by
  have stream := h.mirrors.stream_eq settled
  have effect := memoryObject_reads (m := memoryObject.after m₀ g.order) reads
  rw [stream] at effect
  refine h.point began asks silent untouched.1 effect h.mirrors (fun _ => rfl) rfl rfl
    (fun _ _ _ _ => rfl) ⟨?_, settled_readAnswer h.holds untouched.2 reads⟩
  exact List.mem_append_right _ (List.mem_singleton_self _)

/-- The expectation is compared with what the batches recorded, and does not hold. -/
theorem advances_conflict {op : MemoryOp} {r : op.Res}
    (silent : Silent behave (.performed c call op r))
    (untouched : Untouched c g (appendedBatches behave trace)) (appends : sc.readsOnly = false)
    {id : AggregateId} {options : PublishOptions} {raws : List RawEvent}
    (isPublish : sc = .publish id options raws)
    (settled : ∀ s, b.streams.get sc.target = some s → g.pending s = [])
    (stale : met options (b.events id) = false) {phase : Phase}
    (known : ⟨c, sc, conflict options (b.events id)⟩ ∈ g.order ++
        [⟨c, sc, conflict options (b.events id)⟩] →
      Settled c (appendedBatches behave trace) sc (conflict options (b.events id)) →
      phase.Known c sc ⟨g.order ++ [⟨c, sc, conflict options (b.events id)⟩], g.pending⟩ b
        (appendedBatches behave trace)) :
    Advances behave m₀ c call sc g b trace op r b phase := by
  subst isPublish
  have stream : (memoryObject.after m₀ g.order).log.stream id = b.events id :=
    h.mirrors.stream_eq settled
  have unmet : met options ((memoryObject.after m₀ g.order).log.stream id) = false := by
    rw [stream]
    exact stale
  have effect := memoryObject_conflict appends unmet
  rw [stream] at effect
  refine h.point began asks silent untouched.1 effect h.mirrors (fun _ => rfl) rfl rfl
    (fun _ _ _ _ => rfl) ?_
  exact known (List.mem_append_right _ (List.mem_singleton_self _)) (.publishFailed untouched.2)

/-! ### Finding the stream -/

theorem advances_get {id : AggregateId} (target : id = sc.target) {r : Option Stream}
    (found : b.streams.get id = r) (untouched : Untouched c g (appendedBatches behave trace)) :
    Advances behave m₀ c call sc g b trace (.get id) r b (Phase.start.learn sc (.get id) r) := by
  subst target
  have silent : Silent behave (.performed c call (.get sc.target) r) := rfl
  cases r with
  | some s =>
      exact h.quiet began silent h.mirrors (fun _ => rfl) (fun _ _ entry => entry)
        (fun _ _ _ _ => rfl) ⟨untouched, found⟩
  | none =>
      have settled : ∀ s, b.streams.get sc.target = some s → g.pending s = [] := by
        intro s entry
        rw [found] at entry
        cases entry
      have nothing := Backing.events_of_absent found
      simp only [Phase.learn]
      by_cases reads : sc.readsOnly = true
      · rw [if_pos reads]
        have step := advances_read h began asks silent untouched reads settled
        rw [nothing] at step
        exact step
      · rw [if_neg reads]
        have appends : sc.readsOnly = false := by simpa using reads
        cases sc with
        | load id => exact absurd rfl reads
        | publish id options raws =>
            have nothing : b.events id = [] := nothing
            dsimp only
            cases fine : met options [] with
            | true =>
                rw [if_pos rfl]
                refine h.quiet began silent h.mirrors (fun _ => rfl) (fun _ _ entry => entry)
                  (fun _ _ _ _ => rfl) ⟨untouched, appends, ?_⟩
                intro id' options' raws' same
                cases same
                exact fine
            | false =>
                rw [if_neg Bool.false_ne_true]
                refine advances_conflict h began asks silent untouched appends rfl settled
                  (by rw [nothing]; exact fine) fun effect settled => ?_
                rw [nothing] at effect settled ⊢
                exact ⟨effect, settled⟩

/-! ### Under the locks -/

theorem advances_readEvents {events : List RecordedEvent}
    (step : serveMemory c (.readEvents s) b = some (events, b'))
    (untouched : Untouched c g (appendedBatches behave trace))
    (entry : b.streams.get sc.target = some s) (reads : sc.readsOnly = true) :
    Advances behave m₀ c call sc g b trace (.readEvents s) events b'
      (.answered (readAnswer sc events)) := by
  simp only [serveMemory] at step
  split at step
  · cases step
  · next unlocked =>
      cases step
      have idle : (b.cells s).writer = none := by simpa using unlocked
      have settled : ∀ s', b.streams.get sc.target = some s' → g.pending s' = [] := by
        intro s' entry'
        rw [entry] at entry'
        cases entry'
        exact h.mirrors.idle s idle
      rw [← Backing.events_of_get entry]
      exact advances_read h began asks rfl untouched reads settled

theorem advances_guardedEvents {events : List RecordedEvent}
    (step : serveMemory c (.guardedEvents s) b = some (events, b'))
    (untouched : Untouched c g (appendedBatches behave trace)) (writing : Writing c sc g b s [])
    (appends : sc.readsOnly = false) :
    Advances behave m₀ c call sc g b trace (.guardedEvents s) events b'
      ((Phase.locked s).learn sc (.guardedEvents s) events) := by
  cases step
  have silent : Silent behave (.performed c call (.guardedEvents s) (b.cells s).events) := rfl
  cases sc with
  | load id => cases appends
  | publish id options raws =>
      have held : b.events id = (b.cells s).events := Backing.events_of_get writing.entry
      rw [Phase.learn]
      cases fine : met options (b.cells s).events with
      | true =>
          refine h.quiet began silent h.mirrors (fun _ => rfl) (fun _ _ entry => entry)
            (fun _ _ _ _ => rfl) ⟨untouched, writing, appends, rfl, ?_⟩
          intro id' options' raws' same
          cases same
          exact fine
      | false =>
          have settled : ∀ s', b.streams.get id = some s' → g.pending s' = [] := by
            intro s' entry'
            have entry : b.streams.get id = some s := writing.entry
            rw [entry] at entry'
            cases entry'
            exact writing.pending
          refine advances_conflict h began asks silent untouched appends rfl settled
            (by rw [held]; exact fine) fun effect settled => ?_
          rw [held] at effect settled ⊢
          exact ⟨⟨writing.entry, writing.lock, writing.pending⟩, appends, effect, settled⟩

theorem advances_mint {count : Nat} {r : Except MonotonicError (List (EventId × Revision))}
    {events : List RecordedEvent} {id : AggregateId} {options : PublishOptions}
    {raws : List RawEvent} (step : serveMemory c (.mintEventIds count) b = some (r, b'))
    (known : (Phase.checked s events).Known c sc g b (appendedBatches behave trace))
    (isPublish : sc = .publish id options raws) (all : count = raws.length) :
    Advances behave m₀ c call sc g b trace (.mintEventIds count) r b'
      ((Phase.checked s events).learn sc (.mintEventIds count) r) := by
  subst isPublish
  subst all
  obtain ⟨untouched, writing, appends, held, fine⟩ := known
  have entry : b.streams.get id = some s := writing.entry
  have locked : (b.cells s).writer ≠ none := by
    rw [writing.lock]
    exact Option.some_ne_none c
  have stream : (memoryObject.after m₀ g.order).log.stream id = events := by
    rw [h.mirrors.present id s entry, writing.pending, List.append_nil, held]
  have fine : met options ((memoryObject.after m₀ g.order).log.stream id) = true := by
    rw [stream]
    exact fine id options raws rfl
  have generator := h.mirrors.generator
  cases mint : mintEventIds raws.length b.generator with
  | mk minted gen =>
      simp only [serveMemory, mint] at step
      cases step
      have silent : Silent behave (.performed c call (.mintEventIds raws.length) r) := rfl
      cases r with
      | error e =>
          have effect := memoryObject_refused appends fine (by rw [generator]; exact mint)
          refine h.point began asks silent untouched.1 effect (h.mirrors.refused gen)
            (fun _ => rfl) rfl rfl (fun _ _ _ _ => rfl)
            ⟨⟨entry, writing.lock, writing.pending⟩, appends, ?_, .publishFailed untouched.2⟩
          exact List.mem_append_right _ (List.mem_singleton_self _)
      | ok ids =>
          have effect := memoryObject_appends appends fine (by rw [generator]; exact mint)
          have length := (mintEventIds_ok mint).1
          refine h.point began asks silent untouched.1 effect
            (h.mirrors.mint entry locked writing.pending _ gen) (fun _ => rfl) rfl rfl ?_
            ⟨untouched.2, ⟨entry, writing.lock, Function.update_self ..⟩, appends, held, ?_, ?_⟩
          · intro s' c' ne lockedBy
            have apart : s' ≠ s := by
              rintro rfl
              rw [writing.lock] at lockedBy
              cases lockedBy
              exact ne rfl
            exact Function.update_of_ne apart _ _
          · exact List.mem_append_right _ (List.mem_singleton_self _)
          · intro id' options' raws' same
            cases same
            refine ⟨?_, recordAll_carries length⟩
            rw [← stream]
            exact fine

/-! ### Appending -/

theorem advances_extend {events recorded : List RecordedEvent}
    (step : serveMemory c (.extendEvents s recorded) b = some ((), b'))
    (known : (Phase.minted s events recorded).Known c sc g b (appendedBatches behave trace)) :
    Advances behave m₀ c call sc g b trace (.extendEvents s recorded) () b'
      (.leaving s (.published (.ok ⟨sc.target, lastRevision recorded, recorded⟩))) := by
  cases step
  obtain ⟨absent, writing, appends, held, effect, carries⟩ := known
  cases sc with
  | load id => cases appends
  | publish id options raws =>
      obtain ⟨fine, carries⟩ := carries id options raws rfl
      have entry : b.streams.get id = some s := writing.entry
      have nonempty : raws ≠ [] := by
        rintro rfl
        cases appends
      have batches : appendedBatches behave
          (trace ++ [.performed c call (.extendEvents s recorded) ()]) =
            appendedBatches behave trace ++ [⟨c, id, options, raws, recorded⟩] := by
        rw [appendedBatches_concat]
        simp [appendedBatch, asks, EventStoreCall.batch?]
      have mirrors := h.mirrors.extend entry
      rw [writing.pending] at mirrors
      have still : Undisturbed c g b (appendedBatches behave trace)
          ⟨g.order, Function.update g.pending s []⟩ (b.extend s recorded)
          (appendedBatches behave trace ++ [⟨c, id, options, raws, recorded⟩]) := by
        refine ⟨⟨[], (List.append_nil _).symm, by simp⟩, ⟨_, rfl, by simp⟩, fun _ _ entry => entry, ?_⟩
        intro s' c' ne lockedBy
        have apart : s' ≠ s := by
          rintro rfl
          rw [writing.lock] at lockedBy
          cases lockedBy
          exact ne rfl
        exact ⟨Backing.setCell_ne apart _, Function.update_of_ne apart _ _⟩
      refine ⟨⟨g.order, Function.update g.pending s []⟩, ⟨?_, ?_, ?_, mirrors, ?_, ?_, ?_, ?_⟩, ?_, ?_⟩
      · exact h.linear.extend (by intro entry _ call' same; cases same)
      · intro entry member
        obtain ⟨call', invoked, asks'⟩ := h.own entry member
        exact ⟨call', List.mem_append_left _ invoked, asks'⟩
      · intro batch member
        rw [batches] at member
        rcases List.mem_append.mp member with old | new
        · obtain ⟨call', invoked, asks'⟩ := h.asked batch old
          exact ⟨call', List.mem_append_left _ invoked, asks'⟩
        · rw [List.mem_singleton.mp new]
          exact ⟨call, List.mem_append_left _ began.1, asks⟩
      · rw [batches]
        have target : (⟨c, id, options, raws, recorded⟩ : Batch).aggregateId = id := rfl
        exact h.holds.extend entry target
      · intro earlier batch later split
        rw [batches] at split
        rcases List.eq_nil_or_concat later with rfl | ⟨rest, last, rfl⟩
        · obtain ⟨rfl, same⟩ := List.append_inj' split rfl
          cases same
          refine ⟨nonempty, carries, ?_⟩
          intro e expecting
          have stream : streamOf (appendedBatches behave trace) id = events := by
            rw [← h.holds id, Backing.events_of_get entry, held]
          rw [stream]
          rw [met, expecting] at fine
          exact of_decide_eq_true fine
        · rw [List.concat_eq_append, ← List.cons_append, ← List.append_assoc] at split
          obtain ⟨same, _⟩ := List.append_inj' split rfl
          exact h.follows earlier batch rest same
      · rw [batches, List.map_append]
        exact h.once.append (List.nodup_singleton _) (by simpa using absent)
      · intro c' call' r' returned
        rw [batches]
        have earlier : .returned c' call' r' ∈ trace := by simpa using returned
        exact h.keep_complete still began.2 earlier
      · rw [batches]
        refine ⟨⟨entry, ?_, Function.update_self ..⟩, appends, effect, ?_⟩
        · exact (Backing.extend_writer recorded s).trans writing.lock
        · exact .appended nonempty (List.mem_append_right _ (List.mem_singleton_self _))
      · rw [batches]
        exact still

end Steps

/-! ### The run -/

section Run

variable {Call Result : Type} {behave : Call → Request Result}
  {mayInvoke : List (MemoryEvent Call Result) → Call → Prop} {m₀ : MemoryModel}
  {trace : List (MemoryEvent Call Result)} {g : Ghost} {b b' : Backing} {c : Nat} {call : Call}
  {sc : EventStoreCall}

/-- Whatever a call may do in its phase advances it. -/
theorem advances (h : Consistent behave m₀ g b trace)
    (began : Pool.Open (S := clients behave mayInvoke) c call trace)
    (asks : (behave call).call? = some sc) {phase : Phase} {op : MemoryOp} {r : op.Res}
    (known : phase.Known c sc g b (appendedBatches behave trace)) (may : phase.May sc op)
    (step : serveMemory c op b = some (r, b')) :
    Advances behave m₀ c call sc g b trace op r b' (phase.learn sc op r) := by
  cases phase with
  | start =>
      cases op <;> try exact may.elim
      case get id =>
        cases step
        exact advances_get h began asks may rfl known
  | absent =>
      cases op <;> try exact may.elim
      case get id =>
        cases step
        exact advances_get_again h began may rfl known
      case entryOrInsert id => exact advances_entryOrInsert h began may step known.1
  | found s =>
      cases op <;> try exact may.elim
      case readEvents s' =>
        obtain ⟨rfl, reads⟩ := may
        exact advances_readEvents h began asks step known.1 known.2 reads
      case writeLock s' =>
        obtain ⟨rfl, appends⟩ := may
        exact advances_writeLock h began step known.1 known.2 (by simpa using appends)
  | locked s =>
      cases op <;> try exact may.elim
      case guardedEvents s' =>
        cases may
        exact advances_guardedEvents h began asks step known.1 known.2.1 known.2.2
  | checked s events =>
      cases op <;> try exact may.elim
      case mintEventIds count =>
        obtain ⟨id, options, raws, isPublish, all⟩ := may
        exact advances_mint h began asks step known isPublish all
  | minted s events recorded =>
      cases op <;> try exact may.elim
      case extendEvents s' events' =>
        obtain ⟨rfl, rfl⟩ := may
        exact advances_extend h began asks step known
  | leaving s result =>
      cases op <;> try exact may.elim
      case unlock s' =>
        cases may
        exact advances_unlock h began step known
  | answered result => exact may.elim

/-- What a running request knows: the phase of its store call, if it makes one. -/
def RequestKnown (behave : Call → Request Result) (g : Ghost) (c : Nat) (call : Call) (k : Knowledge)
    (b : Backing) (trace : List (MemoryEvent Call Result)) : Prop :=
  (behave call).call? = k.call ∧
    ∀ sc, k.call = some sc → k.phase.Known c sc g b (appendedBatches behave trace)

theorem Undisturbed.requestKnown {c' : Nat} {call' : Call} {k : Knowledge} {g' : Ghost}
    {trace' : List (MemoryEvent Call Result)}
    (still : Undisturbed c g b (appendedBatches behave trace) g' b' (appendedBatches behave trace'))
    (ne : c' ≠ c) (known : RequestKnown behave g c' call' k b trace) :
    RequestKnown behave g' c' call' k b' trace' :=
  ⟨known.1, fun sc asks => still.known ne (known.2 sc asks)⟩

theorem Undisturbed.refl (done : List Batch) : Undisturbed c g b done g b done where
  order := ⟨[], (List.append_nil _).symm, by simp⟩
  done := ⟨[], (List.append_nil _).symm, by simp⟩
  entries _ _ entry := entry
  cells _ _ _ _ := ⟨rfl, rfl⟩

/-- Beginning a call changes nothing. -/
theorem Consistent.invoke (h : Consistent behave m₀ g b trace)
    (fresh : Pool.Fresh (S := clients behave mayInvoke) c trace) :
    Consistent behave m₀ g b (trace ++ [.invoked c call]) ∧
      RequestKnown behave g c call (startingKnowledge (behave call)) b
        (trace ++ [.invoked c call]) := by
  have silent : Silent behave (.invoked c call : MemoryEvent Call Result) := rfl
  have batches : appendedBatches behave (trace ++ [.invoked c call]) = appendedBatches behave trace :=
    silent.batches
  have notInOrder : ∀ entry ∈ g.order, entry.caller ≠ c := by
    intro entry member
    obtain ⟨call', invoked, _⟩ := h.own entry member
    exact fresh _ invoked
  refine ⟨⟨?_, ?_, ?_, h.mirrors, ?_, ?_, ?_, ?_⟩, rfl, ?_⟩
  · refine h.linear.extend ?_
    intro entry member call' same
    cases same
    exact notInOrder entry member rfl
  · intro entry member
    obtain ⟨call', invoked, asks⟩ := h.own entry member
    exact ⟨call', List.mem_append_left _ invoked, asks⟩
  · intro batch member
    rw [batches] at member
    obtain ⟨call', invoked, asks⟩ := h.asked batch member
    exact ⟨call', List.mem_append_left _ invoked, asks⟩
  · rw [batches]
    exact h.holds
  · rw [batches]
    exact h.follows
  · rw [batches]
    exact h.once
  · intro c' call' r returned
    rw [batches]
    exact h.complete c' call' r (by simpa using returned)
  · intro sc _
    rw [batches]
    constructor
    · intro member
      obtain ⟨entry, inside, same⟩ := List.mem_map.mp member
      exact notInOrder entry inside same
    · intro member
      obtain ⟨batch, inside, same⟩ := List.mem_map.mp member
      obtain ⟨call', invoked, _⟩ := h.asked batch inside
      exact fresh _ invoked same

/-- A call returns what its effect settled. -/
theorem Consistent.finish (h : Consistent behave m₀ g b trace) {k : Knowledge} {result : Result}
    (known : RequestKnown behave g c call k b trace)
    (ended : requestDone (behave call) k result) :
    Consistent behave m₀ g b (trace ++ [.returned c call result]) := by
  have silent : Silent behave (.returned c call result) := rfl
  have batches : appendedBatches behave (trace ++ [.returned c call result]) =
      appendedBatches behave trace := silent.batches
  refine ⟨h.linear.extend (by intro entry _ call' same; cases same), ?_, ?_, h.mirrors, ?_, ?_, ?_,
    ?_⟩
  · intro entry member
    obtain ⟨call', invoked, asks⟩ := h.own entry member
    exact ⟨call', List.mem_append_left _ invoked, asks⟩
  · intro batch member
    rw [batches] at member
    obtain ⟨call', invoked, asks⟩ := h.asked batch member
    exact ⟨call', List.mem_append_left _ invoked, asks⟩
  · rw [batches]
    exact h.holds
  · rw [batches]
    exact h.follows
  · rw [batches]
    exact h.once
  · intro c' call' r returned
    rw [batches]
    rcases List.mem_append.mp returned with old | new
    · exact h.complete c' call' r old
    · rw [List.mem_singleton] at new
      cases new
      cases request : behave call with
      | answered a =>
          rw [request] at ended
          exact ended
      | storeCall sc respond =>
          rw [request] at ended
          obtain ⟨r, answered, rfl⟩ := ended
          have asks : k.call = some sc := by
            rw [← known.1, request]
            rfl
          have settled := known.2 sc asks
          rw [answered] at settled
          exact ⟨r, settled.1, settled.2, rfl⟩

/-- The rely-guarantee rule of the store. -/
def memoryRule (behave : Call → Request Result)
    (mayInvoke : List (MemoryEvent Call Result) → Call → Prop) (m₀ : MemoryModel)
    (allowed : Backing → MemoryEvent Call Result → Prop) :
    Pool.Rule (S := clients behave mayInvoke) (K := Knowledge) (G := Ghost) phaseDiscipline
      allowed where
  inv := Consistent behave m₀
  holds := RequestKnown behave
  start call := startingKnowledge (behave call)
  done call := requestDone (behave call)
  obeys call := obeys_request (behave call)
  invoke {g s trace c call} h fresh _ _ := by
    obtain ⟨kept, known⟩ := @Consistent.invoke _ _ _ _ _ _ _ _ c call h fresh
    have batches : appendedBatches behave (trace ++ [.invoked c call]) = appendedBatches behave trace :=
      Silent.batches rfl
    have still : Undisturbed c g s (appendedBatches behave trace) g s
        (appendedBatches behave (trace ++ [.invoked c call])) := by
      rw [batches]
      exact Undisturbed.refl _
    exact ⟨g, kept, known, fun c' call' k' ne before => still.requestKnown ne before⟩
  perform {g s trace c call k op r s'} h began known may _ step := by
    obtain ⟨sc, asks, permitted⟩ := may
    have request := known.1.trans asks
    obtain ⟨g', kept, learned, still⟩ := advances h began request (known.2 sc asks) permitted step
    refine ⟨g', kept, ⟨?_, ?_⟩, fun c' call' k' ne before => still.requestKnown ne before⟩
    · simp only [phaseDiscipline, asks]
      exact request
    · intro sc' asks'
      simp only [phaseDiscipline, asks] at asks' ⊢
      cases asks'
      exact learned
  finish {g s trace c call k result} h began known ended _ := by
    have batches : appendedBatches behave (trace ++ [.returned c call result]) =
        appendedBatches behave trace := Silent.batches rfl
    have still : Undisturbed c g s (appendedBatches behave trace) g s
        (appendedBatches behave (trace ++ [.returned c call result])) := by
      rw [batches]
      exact Undisturbed.refl _
    exact ⟨g, h.finish known ended, fun c' call' k' ne before => still.requestKnown ne before⟩

/-- Every reachable state of any clients on any clones is explained by some order. -/
theorem reachable_consistent {gen : Generator} {p : Pool (clients behave mayInvoke)}
    (reach : Pool.Reachable (Backing.new gen) p) :
    ∃ g, Consistent behave ⟨[], gen⟩ g p.shared p.trace := by
  obtain ⟨g, held, _⟩ := (memoryRule behave mayInvoke ⟨[], gen⟩ _).sound
    (Consistent.initial behave gen) reach
  exact ⟨g, held⟩

/-- Calls on one store, each running alone, one after the other. -/
theorem clients_inOrder {b₀ b' : Backing} {calls : List Call} {results : List Result}
    (run : Pool.runInOrder (S := clients behave fun _ _ => True) (fun c _ op b => serveMemory c op b)
      0 calls b₀ = some (results, b')) :
    ∃ p : Pool (clients behave fun _ _ => True), Pool.Reachable b₀ p ∧ p.shared = b' ∧
      (∀ c, p.running c = none) ∧ ∀ i call a, calls[i]? = some call → results[i]? = some a →
        .returned i call a ∈ p.trace := by
  have begin : Pool.ReachableBy (S := clients behave fun _ _ => True) (fun _ _ => True) b₀
      (Pool.initial b₀) := .start
  obtain ⟨q, reach, shared, _, idle, each⟩ := begin.runInOrder (fun _ _ _ => ⟨trivial, fun _ => trivial⟩)
    (fun c call b op r b' served => ⟨served, trivial⟩) (fun _ _ _ _ => trivial)
    (fun c' _ event member => by cases member) run
  refine ⟨q, reach, shared, fun c => idle c rfl, fun i call a isCall isResult => ?_⟩
  simpa using each i call a isCall isResult

end Run
end WeeEvents.Memory
