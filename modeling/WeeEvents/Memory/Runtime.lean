import WeeEvents.Memory.FailedPublish
import WeeEvents.AtomicStore

/-!
# The in-memory store at work

Between calls the backing store mirrors a log with nothing pending, and each
method, run with no other call on the way, is one step on that log.
-/
namespace WeeEvents.Memory
open Foundation

/-- No call is under way, and the streams are those of the log. -/
structure AtRest (b : Backing) (log : EventLog) : Prop where
  unlocked : ∀ s, (b.cells s).writer = none
  mirrors : Mirrors ⟨log, b.generator⟩ (fun _ => []) b
  minted : Minted ⟨log, b.generator⟩

theorem atRest_new (generator : Generator) : AtRest (Backing.new generator) [] :=
  ⟨fun _ => rfl, Mirrors.new generator, minted_new generator⟩

section AtRest

variable {b b' : Backing} {log : EventLog} {id : AggregateId} {options : PublishOptions}
  {raws : List RawEvent} {s : Stream}

theorem AtRest.ordered (h : AtRest b log) : log.Ordered :=
  ⟨h.minted.stream_increasing, h.minted.nonzero⟩

theorem AtRest.events (h : AtRest b log) (id : AggregateId) : b.events id = log.stream id := by
  cases entry : b.streams.get id with
  | none =>
      have empty : log.stream id = [] := h.mirrors.absent id entry
      rw [Backing.events_of_absent entry, empty]
  | some s =>
      have whole := h.mirrors.present id s entry
      rw [List.append_nil] at whole
      rw [Backing.events_of_get entry, ← whole]

theorem AtRest.insert (h : AtRest b log) (absent : b.streams.get id = none) :
    AtRest (b.insert id absent) log := by
  refine ⟨?_, h.mirrors.insert absent, h.minted⟩
  intro s
  rw [h.mirrors.insert_cells absent]
  exact h.unlocked s

/-- The append of a minted batch, as the lock, the mint, the extension and the unlock do it. -/
theorem AtRest.extend (h : AtRest b log) (entry : b.streams.get id = some s)
    {ids : List (EventId × Revision)} {generator : Generator}
    (mint : mintEventIds raws.length b.generator = (.ok ids, generator)) :
    AtRest { b.extend s (recordAll options.metadata raws ids) with generator }
      (log ++ entries id (recordAll options.metadata raws ids)) := by
  have locked : Mirrors ⟨log, b.generator⟩ (fun _ => []) (b.setWriter s (some 0)) :=
    h.mirrors.setWriter entry rfl (some 0)
  have taken : ((b.setWriter s (some 0)).cells s).writer ≠ none := by
    rw [Backing.setWriter, Backing.setCell_self]
    exact Option.some_ne_none 0
  have minted := locked.mint entry taken rfl (recordAll options.metadata raws ids) generator
  have extended := minted.extend entry
  rw [Function.update_self, Function.update_idem] at extended
  have released := extended.setWriter entry (by rw [Function.update_self]) none
  have restored : Function.update (fun _ => []) s [] = (fun _ => [] : Pending) :=
    Function.update_eq_self s _
  have free : ((({ b with generator } : Backing)).cells s).writer = none := h.unlocked s
  have same := Backing.extend_free free (some 0) (recordAll options.metadata raws ids)
  rw [restored] at released
  change Mirrors _ _ (((Backing.setWriter { b with generator } s (some 0)).extend s
    (recordAll options.metadata raws ids)).setWriter s none) at released
  rw [same] at released
  refine ⟨?_, released, h.minted.append mint⟩
  intro s'
  exact (Backing.extend_writer _ s').trans (h.unlocked s')

/-- A refused mint leaves the streams, and an accepted one appends the batch. -/
theorem AtRest.mintInto (h : AtRest b log) (entry : b.streams.get id = some s) (nonempty : raws ≠ [])
    (fine : met options (b.events id) = true) {r : Except Error ChangeSet}
    (minting : mintInto id options raws s b = (r, b')) :
    ∃ log', AtRest b' log' ∧ StoreStep log (.publish id options raws) r log' := by
  unfold Memory.mintInto at minting
  split at minting
  · next e generator mint =>
      cases minting
      obtain ⟨n, advanced⟩ := mintEventIds_generator raws.length b.generator
      rw [mint] at advanced
      have kept : Minted ⟨log, generator⟩ := by
        rw [show generator = b.generator.advance n from advanced]
        exact h.minted.refused n
      exact ⟨log, ⟨h.unlocked, h.mirrors.refused generator, kept⟩, .publishFailed⟩
  · next ids generator mint =>
      cases minting
      have rest : AtRest { b.extend s (recordAll options.metadata raws ids) with generator }
          (log ++ entries id (recordAll options.metadata raws ids)) := h.extend entry mint
      have asked : ∀ e, options.expectedRevision = some e → e = lastRevision (log.stream id) := by
        intro e expecting
        rw [met, expecting, h.events] at fine
        exact of_decide_eq_true fine
      exact ⟨_, rest, .appended nonempty (recordAll_carries (mintEventIds_ok mint).1) asked rest.ordered⟩

/-- `publish`, run alone on a store at rest. -/
theorem AtRest.publish (h : AtRest b log) {c : Nat} {r : Except Error ChangeSet}
    (run : (publish id options raws).eval (fun op b => serveMemory c op b) b = some (r, b')) :
    ∃ log', AtRest b' log' ∧ StoreStep log (.publish id options raws) r log' := by
  by_cases empty : raws = []
  · subst empty
    rw [eval_publish_nothing h.unlocked, h.events] at run
    cases run
    exact ⟨log, h, .nothing⟩
  · by_cases fine : met options (b.events id) = true
    · obtain ⟨s, b₁, withEntry, minting⟩ := eval_publish_mints (c := c) h.unlocked empty fine
      rw [minting] at run
      have done : Memory.mintInto id options raws s b₁ = (r, b') := Option.some.inj run
      rcases withEntry with ⟨entry, rfl⟩ | ⟨absent, rfl, rfl⟩
      · exact h.mintInto entry empty fine done
      · have entry : (b.insert id absent).streams.get id = some b.streams.next :=
          StreamMap.get_insertNew_self absent
        rw [← h.mirrors.insert_events absent id] at fine
        exact (h.insert absent).mintInto entry empty fine done
    · have stale : met options (b.events id) = false := by simpa using fine
      rw [eval_publish_conflict h.unlocked empty stale] at run
      cases run
      exact ⟨log, h, .publishFailed⟩

end AtRest

/-- The in-memory store, used by one call after the other. -/
def memoryRuntime : StoreRuntime where
  Op := MemoryOp
  Res := MemoryOp.Res
  State := Backing
  store := memoryStore
  step b op r b' := serveMemory 0 op b = some (r, b')
  Represents := AtRest
  refines b log call r b' h run := by
    rw [Program.runs_iff_eval] at run
    cases call with
    | load id =>
        have loaded : (load id).eval (fun op b => serveMemory 0 op b) b =
            some (.ok (Aggregate.fromEvents id (b.events id)), b) := eval_load h.unlocked
        rw [h.events] at loaded
        cases run.symm.trans loaded
        exact ⟨log, h, .loaded⟩
    | publish id options raws => exact h.publish run

end WeeEvents.Memory
