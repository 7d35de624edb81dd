import WeeEvents.Memory.Runtime
import WeeEvents.SequentialStore

/-!
# The in-memory store, call by call

A store at rest answers every call, and unless a draw of its generator is
refused the answer is a step on its log.
-/
namespace WeeEvents.Memory
open Foundation

theorem Minted.rising {m : MemoryModel} (h : Minted m) : m.log.Rising := by
  refine List.pairwise_cons.mpr ⟨?_, List.pairwise_map.mpr (h.pairwise.imp fun all => all.2.1)⟩
  intro revision member
  obtain ⟨entry, inside, rfl⟩ := List.mem_map.mp member
  exact lt_of_le_of_ne (Revision.zero_le _) (h.nonzero entry inside).symm

/-- A mint that fails made a draw that was refused. -/
theorem mintEventIds_refused {count : Nat} {g g' : Generator} {e : MonotonicError}
    (h : mintEventIds count g = (.error e, g')) : ¬ g'.Unrefused := by
  induction count generalizing g with
  | zero => cases h
  | succ count ih =>
      rw [mintEventIds_step] at h
      split at h
      · next refused hu =>
          cases h
          intro all
          have isOk := all g.drawn (Nat.lt_succ_self _)
          rw [Generator.outcome_advance, hu] at isOk
          cases isOk
      · next u refused hu hv =>
          cases h
          intro all
          have isOk := all (g.drawn + 1) (Nat.lt_succ_self _)
          rw [Generator.outcome_advance, hv] at isOk
          cases isOk
      · next u v hu hv =>
          cases later : mintEventIds count (g.advance 2) with
          | mk r g₁ =>
              rw [later] at h
              cases r with
              | ok minted => cases h
              | error e' =>
                  cases h
                  exact ih later

section AtRest

variable {b b' : Backing} {log : EventLog} {id : AggregateId} {options : PublishOptions}
  {raws : List RawEvent}

/-- A mint into the stream of the aggregate appends the batch. -/
theorem AtRest.mintStep {s : Stream} (h : AtRest b log) (entry : b.streams.get id = some s)
    (nonempty : raws ≠ []) (fine : met options (b.events id) = true) {r : Except Error ChangeSet}
    (minting : Memory.mintInto id options raws s b = (r, b')) (unrefused : b'.generator.Unrefused) :
    ∃ log', CallStep log (.publish id options raws) (.published r) log' ∧ AtRest b' log' := by
  unfold Memory.mintInto at minting
  split at minting
  · next e generator mint =>
      cases minting
      exact absurd unrefused (mintEventIds_refused mint)
  · next ids generator mint =>
      cases minting
      have rest : AtRest { b.extend s (recordAll options.metadata raws ids) with generator }
          (log ++ entries id (recordAll options.metadata raws ids)) := h.extend entry mint
      have asked : ∀ e, options.expectedRevision = some e → e = lastRevision (log.stream id) := by
        intro e expecting
        rw [met, expecting, h.events] at fine
        exact of_decide_eq_true fine
      exact ⟨_, .appended nonempty asked (recordAll_carries (mintEventIds_ok mint).1) rest.minted.rising,
        rest⟩

theorem AtRest.publishes (h : AtRest b log) (c : Nat) (id : AggregateId) (options : PublishOptions)
    (raws : List RawEvent) :
    ∃ r b', (Memory.publish id options raws).eval (fun op b => serveMemory c op b) b = some (r, b') ∧
      (b'.generator.Unrefused →
        ∃ log', CallStep log (.publish id options raws) (.published r) log' ∧ AtRest b' log') := by
  by_cases empty : raws = []
  · subst empty
    refine ⟨_, b, eval_publish_nothing h.unlocked, fun _ => ⟨log, ?_, h⟩⟩
    rw [h.events]
    exact .nothing
  · by_cases fine : met options (b.events id) = true
    · obtain ⟨s, b₁, withEntry, minting⟩ := eval_publish_mints (c := c) h.unlocked empty fine
      refine ⟨_, _, minting, fun unrefused => ?_⟩
      rcases withEntry with ⟨entry, rfl⟩ | ⟨absent, rfl, rfl⟩
      · exact h.mintStep entry empty fine rfl unrefused
      · have entry : (b.insert id absent).streams.get id = some b.streams.next :=
          StreamMap.get_insertNew_self absent
        rw [← h.mirrors.insert_events absent id] at fine
        exact (h.insert absent).mintStep entry empty fine rfl unrefused
    · have stale : met options (b.events id) = false := by simpa using fine
      refine ⟨_, b, eval_publish_conflict h.unlocked empty stale, fun _ => ⟨log, ?_, h⟩⟩
      rw [h.events] at stale ⊢
      cases expecting : options.expectedRevision with
      | none => simp [met, expecting] at stale
      | some expected =>
          rw [met, expecting] at stale
          exact .conflict empty expecting (of_decide_eq_false stale)

/-- Every call of the trait, run alone. -/
theorem AtRest.calls (h : AtRest b log) (c : Nat) (call : EventStoreCall) :
    ∃ result b', (memoryStore.call call).eval (fun op b => serveMemory c op b) b = some (result, b') ∧
      (b'.generator.Unrefused → ∃ log', CallStep log call result log' ∧ AtRest b' log') := by
  cases call with
  | load id =>
      have loaded : (Memory.load id).eval (fun op b => serveMemory c op b) b =
          some (.ok (Aggregate.fromEvents id (b.events id)), b) := eval_load h.unlocked
      refine ⟨.loaded (.ok (Aggregate.fromEvents id (b.events id))), b, ?_, fun _ => ⟨log, ?_, h⟩⟩
      · exact (Program.eval_bind loaded).trans rfl
      · rw [h.events]
        exact .loaded
  | publish id options raws =>
      obtain ⟨r, b', published, settled⟩ := h.publishes c id options raws
      exact ⟨.published r, b', (Program.eval_bind published).trans rfl, settled⟩

end AtRest
end WeeEvents.Memory
