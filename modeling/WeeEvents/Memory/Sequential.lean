import WeeEvents.Memory.Store
import WeeEvents.Foundation.Linearizable
import WeeEvents.Foundation.Sequence

/-!
# The in-memory store as a sequential object

What the store does when calls run one at a time: one log and one generator.
Every text the generator hands out lies above all earlier ones, so the ids and
revisions of the log, in log order, are strictly increasing.
-/
namespace WeeEvents.Memory
open Foundation

/-! ### Minting -/

/-- The texts of a minted pair, in the order they were drawn. -/
def mintedTexts (minted : List (EventId × Revision)) : List String :=
  minted.flatMap fun ids => [ids.1.text, ids.2.text]

/-- Everything the generator may still hand out lies above `text`. -/
def Above (g : Generator) (text : String) : Prop :=
  ∀ i u, g.drawn ≤ i → g.outcome i = .ok u → text < u.toText

theorem Above.advance {g : Generator} {text : String} (h : Above g text) (n : Nat) :
    Above (g.advance n) text := by
  intro i u later drawn
  have earlier : g.drawn ≤ i := (Nat.le_add_right _ _).trans later
  exact h i u earlier drawn

/-- A generator accepts a batch when none of the draws it needs refuses. -/
def Accepts (g : Generator) (count : Nat) : Prop :=
  ∀ i, i < 2 * count → (g.outcome (g.drawn + i)).isOk

/-- One more pair: two draws, then the rest. -/
theorem mintEventIds_step (count : Nat) (g : Generator) :
    mintEventIds (count + 1) g =
      match g.outcome g.drawn, g.outcome (g.drawn + 1) with
      | .error e, _ => (.error e, g.advance 1)
      | .ok _, .error e => (.error e, g.advance 2)
      | .ok u, .ok v =>
          ((mintEventIds count (g.advance 2)).1.map (((⟨u.toText⟩, Revision.fromUlid v)) :: ·),
            (mintEventIds count (g.advance 2)).2) := by
  have second : ({ g with drawn := g.drawn + 1 + 1 } : Generator) = g.advance 2 := rfl
  rw [mintEventIds, Generator.generate]
  cases g.outcome g.drawn with
  | error e => rfl
  | ok u =>
      simp only [Generator.generate]
      cases g.outcome (g.drawn + 1) with
      | error e => rfl
      | ok v =>
          simp only [second]
          cases mintEventIds count (g.advance 2) with
          | mk r g' => cases r <;> rfl

theorem mintEventIds_generator (count : Nat) (g : Generator) :
    ∃ n, (mintEventIds count g).2 = g.advance n := by
  induction count generalizing g with
  | zero => exact ⟨0, rfl⟩
  | succ count ih =>
      rw [mintEventIds_step]
      split
      · exact ⟨1, rfl⟩
      · exact ⟨2, rfl⟩
      · obtain ⟨n, rest⟩ := ih (g.advance 2)
        rw [rest, Generator.advance_advance]
        exact ⟨2 + n, rfl⟩

theorem mintEventIds_succ {count : Nat} {g g' : Generator} {minted : List (EventId × Revision)}
    (h : mintEventIds (count + 1) g = (.ok minted, g')) :
    ∃ u v rest, g.Mints u v ∧ mintEventIds count (g.advance 2) = (.ok rest, g') ∧
      minted = (⟨u.toText⟩, Revision.fromUlid v) :: rest := by
  rw [mintEventIds_step] at h
  split at h
  · cases h
  · cases h
  · next u v hu hv =>
      cases later : mintEventIds count (g.advance 2) with
      | mk r g₁ =>
          rw [later] at h
          cases r with
          | error e => cases h
          | ok rest =>
              cases h
              exact ⟨u, v, rest, ⟨hu, hv⟩, rfl, rfl⟩

/-- What a successful mint hands out: as many pairs as asked for, their texts
strictly increasing, above all that came before and below all that will come. -/
theorem mintEventIds_ok {count : Nat} {g g' : Generator} {minted : List (EventId × Revision)}
    (h : mintEventIds count g = (.ok minted, g')) :
    minted.length = count ∧ (mintedTexts minted).Pairwise (· < ·) ∧
      (∀ text ∈ mintedTexts minted, Above g' text) ∧
      (∀ text, Above g text → ∀ later ∈ mintedTexts minted, text < later) ∧
      ∀ ids ∈ minted, ids.2 ≠ Revision.zero := by
  induction count generalizing g minted with
  | zero =>
      cases h
      simp [mintedTexts]
  | succ count ih =>
      obtain ⟨u, v, rest, mints, later, rfl⟩ := mintEventIds_succ h
      obtain ⟨length, increasing, above, over_old, nonzero⟩ := ih later
      have uAbove : Above (g.advance 2) u.toText := by
        intro i w le drawn
        have lt : g.drawn < i := by
          simp only [Generator.drawn_advance] at le
          omega
        exact Ulid.toText_strictMono (g.increasing _ _ u w lt mints.eventId drawn)
      have vAbove : Above (g.advance 2) v.toText := by
        intro i w le drawn
        have lt : g.drawn + 1 < i := by
          simp only [Generator.drawn_advance] at le
          omega
        exact Ulid.toText_strictMono (g.increasing _ _ v w lt mints.revision drawn)
      obtain ⟨n, final⟩ := mintEventIds_generator count (g.advance 2)
      rw [later] at final
      have texts : mintedTexts ((⟨u.toText⟩, Revision.fromUlid v) :: rest) =
          u.toText :: v.toText :: mintedTexts rest := rfl
      rw [texts]
      refine ⟨by simp [length], ?_, ?_, ?_, ?_⟩
      · refine List.pairwise_cons.mpr ⟨?_, List.pairwise_cons.mpr ⟨?_, increasing⟩⟩
        · intro text member
          rcases List.mem_cons.mp member with rfl | inRest
          · exact Ulid.toText_strictMono mints.lt
          · exact over_old _ uAbove text inRest
        · intro text member
          exact over_old _ vAbove text member
      · intro text member
        rcases List.mem_cons.mp member with rfl | member
        · rw [show g' = (g.advance 2).advance n from final]
          exact uAbove.advance n
        · rcases List.mem_cons.mp member with rfl | member
          · rw [show g' = (g.advance 2).advance n from final]
            exact vAbove.advance n
          · exact above text member
      · intro text old later' member
        have overU : text < u.toText := old _ u le_rfl mints.eventId
        rcases List.mem_cons.mp member with rfl | member
        · exact overU
        · rcases List.mem_cons.mp member with rfl | member
          · exact overU.trans (Ulid.toText_strictMono mints.lt)
          · exact over_old text (old.advance 2) later' member
      · intro ids member
        rcases List.mem_cons.mp member with rfl | member
        · exact mints.revision_ne_zero
        · exact nonzero ids member

theorem accepts_zero (g : Generator) : Accepts g 0 := by
  intro i lt
  omega

theorem accepts_succ {count : Nat} {g : Generator} :
    Accepts g (count + 1) ↔ (g.outcome g.drawn).isOk ∧ (g.outcome (g.drawn + 1)).isOk ∧
      Accepts (g.advance 2) count := by
  constructor
  · intro h
    refine ⟨h 0 (by omega), h 1 (by omega), ?_⟩
    intro i lt
    have shifted := h (2 + i) (by omega)
    rwa [← Nat.add_assoc] at shifted
  · rintro ⟨first, second, rest⟩ i lt
    match i, lt with
    | 0, _ => exact first
    | 1, _ => exact second
    | i + 2, lt =>
        have shifted := rest i (by omega)
        simp only [Generator.outcome_advance, Generator.drawn_advance] at shifted
        rwa [show g.drawn + (i + 2) = g.drawn + 2 + i by omega]

/-- A mint succeeds exactly when none of its draws is refused. -/
theorem mintEventIds_isOk (count : Nat) (g : Generator) :
    (mintEventIds count g).1.isOk = true ↔ Accepts g count := by
  induction count generalizing g with
  | zero => exact ⟨fun _ => accepts_zero g, fun _ => rfl⟩
  | succ count ih =>
      rw [accepts_succ, ← ih, mintEventIds_step]
      split
      · next e hu => simp [hu, Except.isOk, Except.toBool]
      · next u e hu hv => simp [hv, Except.isOk, Except.toBool]
      · next u v hu hv =>
          rw [hu, hv]
          cases (mintEventIds count (g.advance 2)).1 <;>
            simp [Except.isOk, Except.toBool, Except.map]

/-! ### The object -/

structure MemoryModel where
  log : EventLog
  generator : Generator

/-- `MemoryStore`, one call at a time. -/
def memoryObject : SequentialObject EventStoreCall MemoryModel EventStoreResult where
  apply
    | .load id, m => (.loaded (.ok (Aggregate.fromEvents id (m.log.stream id))), m)
    | .publish id options events, m =>
        let current := lastRevision (m.log.stream id)
        if events.isEmpty then (.published (.ok ⟨id, current, []⟩), m)
        else if options.expectedRevision.all (· = current) then
          match mintEventIds events.length m.generator with
          | (.error e, generator) =>
              (.published (.error (.custom (.monotonic e))), { m with generator })
          | (.ok minted, generator) =>
              let recorded := recordAll options.metadata events minted
              (.published (.ok ⟨id, lastRevision recorded, recorded⟩),
                ⟨m.log ++ entries id recorded, generator⟩)
        else (.published (.error (.revisionConflict
          (options.expectedRevision.getD Revision.zero) current)), m)

/-- The ids and revisions of a log, in log order. -/
def logTexts (log : EventLog) : List String :=
  log.flatMap fun entry => [entry.2.eventId.text, entry.2.revision.text]

/-- The log was minted by the generator: its texts are strictly increasing and
below everything still to come, and no revision is zero. -/
structure Minted (m : MemoryModel) : Prop where
  increasing : (logTexts m.log).Pairwise (· < ·)
  below : ∀ text ∈ logTexts m.log, Above m.generator text
  nonzero : ∀ entry ∈ m.log, entry.2.revision ≠ Revision.zero

theorem logTexts_append (log more : EventLog) :
    logTexts (log ++ more) = logTexts log ++ logTexts more := List.flatMap_append

theorem logTexts_entries (id : AggregateId) (metadata : EventMetadata) {events : List RawEvent}
    {minted : List (EventId × Revision)} (length : minted.length = events.length) :
    logTexts (entries id (recordAll metadata events minted)) = mintedTexts minted := by
  induction events generalizing minted with
  | nil =>
      rw [List.length_nil, List.length_eq_zero_iff] at length
      subst length
      rfl
  | cons raw events ih =>
      cases minted with
      | nil => cases length
      | cons ids minted =>
          have rest := ih (Nat.succ.inj length)
          have split : logTexts (entries id (recordAll metadata (raw :: events) (ids :: minted))) =
              ids.1.text :: ids.2.text :: logTexts (entries id (recordAll metadata events minted)) := rfl
          rw [split, rest]
          rfl

theorem recordAll_carries {metadata : EventMetadata} {events : List RawEvent}
    {minted : List (EventId × Revision)} (length : minted.length = events.length) :
    List.Forall₂ (fun event raw => event.Carries metadata raw) (recordAll metadata events minted)
      events := by
  induction events generalizing minted with
  | nil => simp [recordAll]
  | cons raw events ih =>
      cases minted with
      | nil => cases length
      | cons ids minted =>
          have rest := ih (Nat.succ.inj length)
          exact .cons ⟨rfl, rfl, rfl⟩ rest

theorem recordAll_nonzero {metadata : EventMetadata} {events : List RawEvent}
    {minted : List (EventId × Revision)} (nonzero : ∀ ids ∈ minted, ids.2 ≠ Revision.zero) :
    ∀ event ∈ recordAll metadata events minted, event.revision ≠ Revision.zero := by
  induction events generalizing minted with
  | nil =>
      intro event member
      cases member
  | cons raw events ih =>
      cases minted with
      | nil =>
          intro event member
          cases member
      | cons ids minted =>
          intro event member
          rcases List.mem_cons.mp member with rfl | later
          · exact nonzero ids (List.mem_cons_self ..)
          · exact ih (fun ids member => nonzero ids (List.mem_cons_of_mem _ member)) event later

/-- A successful publish extends the log by minted events. -/
theorem Minted.append {m : MemoryModel} (h : Minted m) {id : AggregateId} {metadata : EventMetadata}
    {events : List RawEvent} {minted : List (EventId × Revision)} {g : Generator}
    (mint : mintEventIds events.length m.generator = (.ok minted, g)) :
    Minted ⟨m.log ++ entries id (recordAll metadata events minted), g⟩ := by
  obtain ⟨length, increasing, above, over_old, nonzero⟩ := mintEventIds_ok mint
  obtain ⟨n, generator⟩ := mintEventIds_generator events.length m.generator
  rw [mint] at generator
  have texts := logTexts_entries id metadata length
  refine ⟨?_, ?_, ?_⟩
  · rw [logTexts_append, texts]
    refine List.pairwise_append.mpr ⟨h.increasing, increasing, ?_⟩
    intro old member later
    exact over_old old (h.below old member) later
  · intro text member
    rw [logTexts_append, texts] at member
    rcases List.mem_append.mp member with old | new
    · rw [show g = m.generator.advance n from generator]
      exact (h.below text old).advance n
    · exact above text new
  · intro entry member
    rcases List.mem_append.mp member with old | new
    · exact h.nonzero entry old
    · obtain ⟨event, inside, rfl⟩ := List.mem_map.mp new
      exact recordAll_nonzero nonzero event inside

theorem Minted.refused {m : MemoryModel} (h : Minted m) (n : Nat) :
    Minted { m with generator := m.generator.advance n } :=
  ⟨h.increasing, fun text member => (h.below text member).advance n, h.nonzero⟩

/-- Every call keeps the log minted. -/
theorem Minted.apply {m : MemoryModel} (h : Minted m) (call : EventStoreCall) :
    Minted (memoryObject.apply call m).2 := by
  cases call with
  | load id => exact h
  | publish id options events =>
      simp only [memoryObject]
      split
      · exact h
      · split
        · split
          · next e g mint =>
              obtain ⟨n, generator⟩ := mintEventIds_generator events.length m.generator
              rw [mint] at generator
              rw [show g = m.generator.advance n from generator]
              exact h.refused n
          · next minted g mint => exact h.append mint
        · exact h

theorem Minted.after {m : MemoryModel} (h : Minted m)
    (order : List (Completed EventStoreCall EventStoreResult)) :
    Minted (memoryObject.after m order) := by
  induction order using List.reverseRecOn with
  | nil => exact h
  | append_singleton order entry ih =>
      rw [SequentialObject.after_concat]
      exact ih.apply entry.call

/-! ### What a minted log says about streams and identities -/

theorem Minted.pairwise {m : MemoryModel} (h : Minted m) :
    m.log.Pairwise fun a b => a.2.eventId.text < b.2.eventId.text ∧
      a.2.revision < b.2.revision ∧ a.2.eventId.text < b.2.revision.text ∧
      a.2.revision.text < b.2.eventId.text := by
  refine (List.pairwise_flatMap.mp h.increasing).2.imp ?_
  intro a b all
  refine ⟨all _ (by simp) _ (by simp), ?_, all _ (by simp) _ (by simp), all _ (by simp) _ (by simp)⟩
  exact Revision.text_lt.mp (all _ (by simp) _ (by simp))

theorem Minted.stream_increasing {m : MemoryModel} (h : Minted m) (id : AggregateId) :
    Increasing RecordedEvent.revision (m.log.stream id) := by
  have within : (m.log.filter (·.1 == id)).Pairwise fun a b => a.2.revision < b.2.revision :=
    (h.pairwise.sublist List.filter_sublist).imp fun all => all.2.1
  exact List.pairwise_map.mpr within

/-- Two entries share no id and no revision, and neither's id is the other's revision. -/
def Apart (a b : AggregateId × RecordedEvent) : Prop :=
  a.2.eventId.text ≠ b.2.eventId.text ∧ a.2.revision ≠ b.2.revision ∧
    a.2.eventId.text ≠ b.2.revision.text ∧ b.2.eventId.text ≠ a.2.revision.text

instance : Std.Symm Apart :=
  ⟨fun _ _ ⟨ids, revisions, ab, ba⟩ => ⟨ids.symm, revisions.symm, ba, ab⟩⟩

/-- Two entries that share an id or a revision are the same entry, and no id is a revision. -/
theorem Minted.distinct {m : MemoryModel} (h : Minted m) {a b : AggregateId × RecordedEvent}
    (ha : a ∈ m.log) (hb : b ∈ m.log) :
    (a.2.eventId = b.2.eventId ∨ a.2.revision = b.2.revision → a = b) ∧
      a.2.eventId.text ≠ b.2.revision.text := by
  have own : ∀ c ∈ m.log, c.2.eventId.text < c.2.revision.text := by
    intro c member
    have pair := (List.pairwise_flatMap.mp h.increasing).1 c member
    simpa using pair
  rcases eq_or_ne a b with rfl | ne
  · exact ⟨fun _ => rfl, (own a ha).ne⟩
  · have apart : m.log.Pairwise Apart := by
      refine h.pairwise.imp ?_
      rintro a b ⟨ids, revisions, idRevision, revisionId⟩
      exact ⟨ids.ne, revisions.ne, idRevision.ne, revisionId.ne'⟩
    obtain ⟨ids, revisions, idRevision, _⟩ := apart.forall ha hb ne
    refine ⟨?_, idRevision⟩
    rintro (same | same)
    · exact absurd (congrArg EventId.text same) ids
    · exact absurd same revisions

end WeeEvents.Memory
