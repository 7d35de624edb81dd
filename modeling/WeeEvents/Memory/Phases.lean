import WeeEvents.Memory.Sequential

/-!
# The phases of a call

Where a call of the in-memory store stands between two of its operations, what
it may do there, and what it has answered once it has taken effect. Every
program of the store follows these phases, whatever its operations answer.
-/
namespace WeeEvents.Memory
open Foundation

inductive Phase where
  /-- Nothing done yet. -/
  | start
  /-- The map had no entry, and a new one is wanted. -/
  | absent
  | found (s : Stream)
  | locked (s : Stream)
  /-- The write lock is held and the expectation was met by these events. -/
  | checked (s : Stream) (events : List RecordedEvent)
  /-- The ids are minted, the events not yet appended. -/
  | minted (s : Stream) (events recorded : List RecordedEvent)
  /-- The result is settled, the write lock still held. -/
  | leaving (s : Stream) (result : EventStoreResult)
  | answered (result : EventStoreResult)

def conflict (options : PublishOptions) (events : List RecordedEvent) : EventStoreResult :=
  .published (.error (.revisionConflict (options.expectedRevision.getD Revision.zero)
    (lastRevision events)))

/-- The answer of a call that only reads these events. -/
def readAnswer : EventStoreCall → List RecordedEvent → EventStoreResult
  | .load id, events => .loaded (.ok (Aggregate.fromEvents id events))
  | .publish id _ _, events => .published (.ok ⟨id, lastRevision events, []⟩)

/-- The expectation of a publish is met by a stream that holds these events. -/
def met (options : PublishOptions) (events : List RecordedEvent) : Bool :=
  options.expectedRevision.all (· = lastRevision events)

def Phase.learn (call : EventStoreCall) : Phase → (op : MemoryOp) → op.Res → Phase
  | .start, .get _, some s => .found s
  | .start, .get _, none =>
      if call.readsOnly then .answered (readAnswer call [])
      else match call with
        | .publish _ options _ =>
            if met options [] then .absent else .answered (conflict options [])
        | _ => .start
  | .absent, .get _, some s => .found s
  | .absent, .entryOrInsert _, s => .found s
  | .found _, .readEvents _, events => .answered (readAnswer call events)
  | .found s, .writeLock _, _ => .locked s
  | .locked s, .guardedEvents _, events =>
      match call with
      | .publish _ options _ =>
          if met options events then .checked s events else .leaving s (conflict options events)
      | _ => .locked s
  | .checked s _, .mintEventIds _, .error e => .leaving s (.published (.error (.custom (.monotonic e))))
  | .checked s held, .mintEventIds _, .ok ids =>
      match call with
      | .publish _ options raws => .minted s held (recordAll options.metadata raws ids)
      | _ => .checked s held
  | .minted s _ recorded, .extendEvents _ _, _ =>
      .leaving s (.published (.ok ⟨call.target, lastRevision recorded, recorded⟩))
  | .leaving _ result, .unlock _, _ => .answered result
  | phase, _, _ => phase

/-- What a call may do in each phase. -/
def Phase.May (call : EventStoreCall) : Phase → MemoryOp → Prop
  | .start, .get id => id = call.target
  | .absent, .get id => id = call.target
  | .absent, .entryOrInsert id => id = call.target
  | .found s, .readEvents s' => s' = s ∧ call.readsOnly
  | .found s, .writeLock s' => s' = s ∧ ¬ call.readsOnly
  | .locked s, .guardedEvents s' => s' = s
  | .checked _ _, .mintEventIds count => ∃ id options raws, call = .publish id options raws ∧
      count = raws.length
  | .minted s _ recorded, .extendEvents s' events => s' = s ∧ events = recorded
  | .leaving s _, .unlock s' => s' = s
  | _, _ => False

/-- What a request knows: the store call it makes, if any, and its phase. -/
structure Knowledge where
  call : Option EventStoreCall
  phase : Phase

def phaseDiscipline : Discipline MemoryOp MemoryOp.Res Knowledge where
  may k op := ∃ call, k.call = some call ∧ k.phase.May call op
  learn k op r := match k.call with
    | some call => { k with phase := k.phase.learn call op r }
    | none => k

/-- The result of a request says what its store call answered. -/
def requestDone {Result : Type} (request : Request Result) (k : Knowledge) (result : Result) : Prop :=
  match request with
  | .answered r => result = r
  | .storeCall _ respond => ∃ r, k.phase = .answered r ∧ result = respond r

def startingKnowledge {Result : Type} (request : Request Result) : Knowledge :=
  ⟨request.call?, .start⟩

/-! ### Every program of the store follows the phases -/

section Obeys

variable {call : EventStoreCall} {phase : Phase}

/-- Obeying the phases of one store call. -/
abbrev Follows {α : Type} (call : EventStoreCall) (done : Phase → α → Prop) (p : MemoryProgram α)
    (phase : Phase) : Prop :=
  phaseDiscipline.Obeys (fun k a => k.call = some call ∧ done k.phase a) p ⟨some call, phase⟩

theorem follows_call {α : Type} {done : Phase → α → Prop} {op : MemoryOp}
    {next : op.Res → MemoryProgram α} (may : phase.May call op)
    (after : ∀ r, Follows call done (next r) (phase.learn call op r)) :
    Follows call done ((memoryCall op).bind next) phase :=
  ⟨⟨call, rfl, may⟩, after⟩

theorem follows_ret {α : Type} {done : Phase → α → Prop} {a : α} (h : done phase a) :
    Follows call done (.ret a) phase := ⟨rfl, h⟩

def Answers {α : Type} (respond : α → EventStoreResult) (phase : Phase) (a : α) : Prop :=
  phase = .answered (respond a)

theorem follows_load (id : AggregateId) :
    Follows (.load id) (Answers EventStoreResult.loaded) (load id) .start := by
  have sync : Follows (.load id) (Answers fun a => .loaded (.ok a)) (loadSync id) .start := by
    refine follows_call rfl fun entry => ?_
    cases entry with
    | none => exact follows_ret rfl
    | some s =>
        refine follows_call ⟨rfl, rfl⟩ fun events => ?_
        cases events with
        | nil => exact follows_ret rfl
        | cons event events => exact follows_ret rfl
  refine sync.bind fun k aggregate known => ?_
  exact ⟨known.1, known.2⟩

theorem follows_currentRevision (id : AggregateId) (options : PublishOptions) :
    Follows (.publish id options []) (Answers fun r => .published (.ok ⟨id, r, []⟩))
      (currentRevisionSync id) .start := by
  refine follows_call rfl fun entry => ?_
  cases entry with
  | none => exact follows_ret rfl
  | some s =>
      refine follows_call ⟨rfl, rfl⟩ fun events => ?_
      have last : (events.getLast?.map RecordedEvent.revision).getD Revision.zero =
          lastRevision events := by
        unfold lastRevision
        cases events.getLast? <;> rfl
      rw [last]
      exact follows_ret rfl

variable {id : AggregateId} {options : PublishOptions} {raws : List RawEvent}

theorem follows_mintAndAppend (s : Stream) (held : List RecordedEvent) :
    Follows (.publish id options raws) (Answers EventStoreResult.published)
      (mintAndAppend id options raws s) (.checked s held) := by
  refine follows_call ⟨id, options, raws, rfl, rfl⟩ fun minted => ?_
  cases minted with
  | error e =>
      refine follows_call rfl fun _ => ?_
      exact follows_ret rfl
  | ok minted =>
      refine follows_call ⟨rfl, rfl⟩ fun _ => ?_
      refine follows_call rfl fun _ => ?_
      exact follows_ret rfl

/-- The re-check under the write guard decides exactly whether the expectation is met. -/
theorem matching_iff (events : List RecordedEvent) (expected : Revision) :
    matching (events.getLast?.map RecordedEvent.revision) expected =
      decide (expected = lastRevision events) := by
  unfold matching lastRevision
  cases events.getLast? with
  | none =>
      have same : expected.isZero = true ↔ decide (expected = Revision.zero) = true := by
        rw [Revision.isZero_iff, decide_eq_true_iff]
      exact Bool.eq_iff_iff.mpr same
  | some e => simp [eq_comm]

theorem follows_publishTo (nonempty : raws ≠ []) (s : Stream) :
    Follows (.publish id options raws) (Answers EventStoreResult.published)
      (publishTo id options raws s) (.found s) := by
  have appends : ¬ (EventStoreCall.publish id options raws).readsOnly = true := by
    simpa [EventStoreCall.readsOnly] using nonempty
  refine follows_call ⟨rfl, appends⟩ fun _ => ?_
  refine follows_call rfl fun events => ?_
  simp only [Phase.learn]
  cases expecting : options.expectedRevision with
  | none =>
      have fine : met options events = true := by simp [met, expecting]
      rw [if_pos fine]
      exact follows_mintAndAppend s events
  | some expected =>
      dsimp only
      rw [matching_iff]
      by_cases same : expected = lastRevision events
      · have fine : met options events = true := by simp [met, expecting, same]
        rw [if_pos fine, decide_eq_true same]
        exact follows_mintAndAppend s events
      · have stale : met options events = false := by simp [met, expecting, same]
        have actual : (events.getLast?.map RecordedEvent.revision).getD Revision.zero =
            lastRevision events := by
          unfold lastRevision
          cases events.getLast? <;> rfl
        rw [stale, decide_eq_false same, actual]
        refine follows_call rfl fun _ => ?_
        refine follows_ret ?_
        simp [Answers, Phase.learn, conflict, expecting]

theorem follows_streamFor {done : Phase → Except Error ChangeSet → Prop}
    {next : Stream → MemoryProgram (Except Error ChangeSet)}
    (after : ∀ s, Follows (.publish id options raws) done (next s) (.found s)) :
    Follows (.publish id options raws) done ((streamFor id).bind next) .absent := by
  refine follows_call rfl fun entry => ?_
  cases entry with
  | some s => exact after s
  | none => exact follows_call rfl fun s => after s

theorem follows_publishSync (nonempty : raws ≠ []) :
    Follows (.publish id options raws) (Answers EventStoreResult.published)
      (publishSync id options raws) .start := by
  have appends : (EventStoreCall.publish id options raws).readsOnly = false := by
    simpa [EventStoreCall.readsOnly] using nonempty
  refine follows_call rfl fun entry => ?_
  cases entry with
  | some s => exact follows_publishTo nonempty s
  | none =>
      simp only [Phase.learn, appends, Bool.false_eq_true, if_false]
      cases expecting : options.expectedRevision with
      | none =>
          have fine : met options [] = true := by simp [met, expecting]
          rw [if_pos fine]
          exact follows_streamFor (follows_publishTo nonempty)
      | some expected =>
          dsimp only
          by_cases zero : expected = Revision.zero
          · have fine : met options [] = true := by simp [met, expecting, zero]
            rw [if_pos fine, Revision.isZero_iff.mpr zero]
            exact follows_streamFor (follows_publishTo nonempty)
          · have stale : met options [] = false := by simp [met, expecting, zero]
            have nonzero : expected.isZero = false := by simp [← Bool.not_eq_true, zero]
            rw [stale, nonzero]
            refine follows_ret ?_
            simp [Answers, conflict, expecting]

theorem follows_publish :
    Follows (.publish id options raws) (Answers EventStoreResult.published)
      (publish id options raws) .start := by
  unfold publish
  split
  · next empty =>
      rw [List.isEmpty_iff] at empty
      subst empty
      refine (follows_currentRevision id options).bind fun k r known => ?_
      exact ⟨known.1, known.2⟩
  · next nonempty =>
      rw [List.isEmpty_iff] at nonempty
      exact follows_publishSync nonempty

/-- Every request obeys the phases of the store call it makes. -/
theorem obeys_request {Result : Type} (request : Request Result) :
    phaseDiscipline.Obeys (requestDone request) (memoryStore.serve request) (startingKnowledge request) := by
  cases request with
  | answered result => exact rfl
  | storeCall call respond =>
      have answers : Follows call (Answers fun r => r) (memoryStore.call call) .start := by
        cases call with
        | load id =>
            refine (follows_load id).bind fun k r known => ?_
            exact ⟨known.1, known.2⟩
        | publish id options raws =>
            refine follows_publish.bind fun k r known => ?_
            exact ⟨known.1, known.2⟩
      refine answers.bind fun k r known => ?_
      exact ⟨r, known.2, rfl⟩

end Obeys
end WeeEvents.Memory
