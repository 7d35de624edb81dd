import WeeEvents.Renderer

/-!
# Rule precedence

What adding, inserting and swapping rules does to a renderer. A renderer holds the
rules that were registered with it, in order. It renders by the action it has for
each event type, so most of it is about that action alone; only rules added at the
end reach the events that had none.
-/
namespace WeeEvents

/-- Why the rendering failed, apart from an event that no rule matches. -/
def RenderError.Unhandled {E : Type} : RenderError E → Prop
  | .unhandledEventType _ => True
  | .applyFailed _ _ => False

namespace Renderer

variable {S E : Type} {rules before between after : List (EventPattern × Action S E)}
  {q r : EventPattern × Action S E} {id : AggregateId} {events : List RecordedEvent}

/-! ### Registering rules -/

/-- Registers a rule with the method for its action. -/
def add (renderer : Renderer S E) (rule : EventPattern × Action S E) : Renderer S E :=
  match rule.2 with
  | .reduce reducer => renderer.register rule.1 reducer
  | .ignore => renderer.registerIgnore rule.1

/-- A new renderer with these rules, registered in order. -/
def ofRules (rules : List (EventPattern × Action S E)) : Renderer S E := rules.foldl add new

theorem rules_add (renderer : Renderer S E) (rule : EventPattern × Action S E) :
    renderer.add rule = ⟨renderer.rules ++ [rule]⟩ := by
  obtain ⟨pattern, action⟩ := rule
  cases action <;> rfl

theorem ofRules_eq (rules : List (EventPattern × Action S E)) : ofRules rules = ⟨rules⟩ := by
  have registers : ∀ renderer : Renderer S E, rules.foldl add renderer = ⟨renderer.rules ++ rules⟩ := by
    induction rules with
    | nil => exact fun renderer => by rw [List.append_nil]; rfl
    | cons rule rest ih =>
        intro renderer
        rw [List.foldl_cons, ih, rules_add, List.append_assoc]
        rfl
  exact registers new

/-! ### The action for an event type -/

theorem find?_matches {eventType : EventType} (matched : q.1.matches eventType = true) :
    (q :: after).find? (fun rule => rule.1.matches eventType) = some q :=
  List.find?_cons_of_pos matched

theorem find?_skips {eventType : EventType} (unmatched : ¬ q.1.matches eventType = true) :
    (q :: after).find? (fun rule => rule.1.matches eventType) =
      after.find? fun rule => rule.1.matches eventType :=
  List.find?_cons_of_neg unmatched

/-- A rule at the end is reached only where no other rule matches. -/
theorem action_append {eventType : EventType} {action : Action S E}
    (found : (⟨rules⟩ : Renderer S E).action eventType = some action) :
    (⟨rules ++ [r]⟩ : Renderer S E).action eventType = some action := by
  obtain ⟨rule, first, same⟩ := Option.map_eq_some_iff.mp found
  unfold Renderer.action
  rw [List.find?_append, first]
  exact congrArg some same

/-- A rule behind one that matches all it matches is never reached. -/
theorem action_shadowed
    (covers : ∀ eventType, r.1.matches eventType = true → q.1.matches eventType = true)
    (eventType : EventType) :
    (⟨before ++ q :: (between ++ r :: after)⟩ : Renderer S E).action eventType =
      (⟨before ++ q :: (between ++ after)⟩ : Renderer S E).action eventType := by
  unfold Renderer.action
  congr 1
  rw [List.find?_append, List.find?_append]
  congr 1
  by_cases matched : q.1.matches eventType = true
  · rw [find?_matches matched, find?_matches matched]
  · have unreached : ¬ r.1.matches eventType = true := fun h => matched (covers eventType h)
    rw [find?_skips matched, find?_skips matched, List.find?_append, List.find?_append,
      find?_skips unreached]

/-- Adjacent rules that never match together may be swapped. -/
theorem action_swap
    (apart : ∀ eventType, ¬ (q.1.matches eventType = true ∧ r.1.matches eventType = true))
    (eventType : EventType) :
    (⟨before ++ q :: r :: after⟩ : Renderer S E).action eventType =
      (⟨before ++ r :: q :: after⟩ : Renderer S E).action eventType := by
  unfold Renderer.action
  congr 1
  rw [List.find?_append, List.find?_append]
  congr 1
  by_cases first : q.1.matches eventType = true
  · have second : ¬ r.1.matches eventType = true := fun h => apart eventType ⟨first, h⟩
    rw [find?_matches first, find?_skips second, find?_matches first]
  · by_cases second : r.1.matches eventType = true
    · rw [find?_skips first, find?_matches second, find?_matches second]
    · rw [find?_skips first, find?_skips second, find?_skips second, find?_skips first]

/-! ### From the action to the rendering -/

/-- One event: an action that is there stays, and only an event without one is unhandled. -/
theorem apply_of_action {renderer renderer' : Renderer S E} {state : S} {event : RecordedEvent}
    {result : Except (RenderError E) S}
    (keeps : ∀ action, renderer.action event.eventType = some action →
      renderer'.action event.eventType = some action)
    (handled : ∀ e, result = .error e → ¬ e.Unhandled)
    (applied : renderer.apply id state event = result) :
    renderer'.apply id state event = result := by
  unfold Renderer.apply at applied ⊢
  cases found : renderer.action event.eventType with
  | none =>
      rw [found] at applied
      exact absurd trivial (handled _ applied.symm)
  | some action =>
      rw [found] at applied
      rw [keeps action found]
      exact applied

theorem apply_congr {renderer renderer' : Renderer S E}
    (same : ∀ eventType, renderer.action eventType = renderer'.action eventType) :
    renderer.apply = renderer'.apply := by
  funext id state event
  unfold Renderer.apply
  rw [same]

theorem foldlM_cons_ok {f : S → RecordedEvent → Except (RenderError E) S} {state : S}
    {event : RecordedEvent} {next : S} (applied : f state event = .ok next) :
    (event :: events).foldlM f state = events.foldlM f next := by
  rw [List.foldlM_cons, applied]
  rfl

theorem foldlM_cons_error {f : S → RecordedEvent → Except (RenderError E) S} {state : S}
    {event : RecordedEvent} {e : RenderError E} (applied : f state event = .error e) :
    (event :: events).foldlM f state = .error e := by
  rw [List.foldlM_cons, applied]
  rfl

/-- A whole stream: by induction on the events, from any state. -/
theorem foldlM_of_action {renderer renderer' : Renderer S E} {state : S}
    {result : Except (RenderError E) S}
    (keeps : ∀ eventType action, renderer.action eventType = some action →
      renderer'.action eventType = some action)
    (handled : ∀ e, result = .error e → ¬ e.Unhandled)
    (folded : events.foldlM (renderer.apply id) state = result) :
    events.foldlM (renderer'.apply id) state = result := by
  induction events generalizing state with
  | nil => exact folded
  | cons event events ih =>
      cases applied : renderer.apply id state event with
      | ok next =>
          rw [foldlM_cons_ok applied] at folded
          have applied' : renderer'.apply id state event = .ok next :=
            apply_of_action (keeps event.eventType) (fun e same => by cases same) applied
          rw [foldlM_cons_ok applied']
          exact ih folded
      | error e =>
          rw [foldlM_cons_error applied] at folded
          subst folded
          have applied' : renderer'.apply id state event = .error e :=
            apply_of_action (keeps event.eventType) handled applied
          exact foldlM_cons_error applied'

/-! ### The event an error names -/

/-- Why one event cannot be rendered from a state. -/
inductive Fails (renderer : Renderer S E) (id : AggregateId) (state : S) (event : RecordedEvent) :
    RenderError E → Prop
  | unmatched : (∀ rule ∈ renderer.rules, rule.1.matches event.eventType = false) →
      Fails renderer id state event (.unhandledEventType (.new id event))
  | reducer {reducer : ReduceFn S E} {source : E} :
      renderer.action event.eventType = some (.reduce reducer) →
      reducer state event.eventType event.data = .error source →
      Fails renderer id state event (.applyFailed (.new id event) source)

theorem fails_of_apply {renderer : Renderer S E} {state : S} {event : RecordedEvent}
    {e : RenderError E} (applied : renderer.apply id state event = .error e) :
    renderer.Fails id state event e := by
  unfold Renderer.apply at applied
  cases found : renderer.action event.eventType with
  | none =>
      rw [found] at applied
      cases applied
      apply Fails.unmatched
      intro rule member
      have none := Option.map_eq_none_iff.mp found
      simpa using List.find?_eq_none.mp none rule member
  | some action =>
      rw [found] at applied
      cases action with
      | ignore => cases applied
      | reduce reducer =>
          dsimp only at applied
          cases reduced : reducer state event.eventType event.data with
          | ok next =>
              rw [reduced] at applied
              cases applied
          | error source =>
              rw [reduced] at applied
              cases applied
              exact Fails.reducer found reduced

/-- A fold that fails has rendered every event before the one it fails on. -/
theorem foldlM_error {renderer : Renderer S E} {state : S} {e : RenderError E}
    (folded : events.foldlM (renderer.apply id) state = .error e) :
    ∃ earlier event later reached, events = earlier ++ event :: later ∧
      earlier.foldlM (renderer.apply id) state = .ok reached ∧
      renderer.Fails id reached event e := by
  induction events generalizing state with
  | nil => cases folded
  | cons event events ih =>
      cases applied : renderer.apply id state event with
      | error e' =>
          rw [foldlM_cons_error applied] at folded
          cases folded
          exact ⟨[], event, events, state, rfl, rfl, fails_of_apply applied⟩
      | ok next =>
          rw [foldlM_cons_ok applied] at folded
          obtain ⟨earlier, failing, later, reached, split, before, fails⟩ := ih folded
          refine ⟨event :: earlier, failing, later, reached, ?_, ?_, fails⟩
          · rw [split]
            rfl
          · rw [foldlM_cons_ok applied]
            exact before

/-! ### Whole renderings -/

variable [Inhabited S]

theorem render_congr {renderer renderer' : Renderer S E}
    (same : ∀ eventType, renderer.action eventType = renderer'.action eventType)
    (aggregate : Aggregate) : renderer.render aggregate = renderer'.render aggregate := by
  unfold Renderer.render Renderer.stateOf
  rw [apply_congr same]

/-- A rule at the end changes no rendering that succeeds or fails in a reducer. -/
theorem render_append {aggregate : Aggregate} {result : Except (RenderError E) (Entity S)}
    (handled : ∀ e, result = .error e → ¬ e.Unhandled)
    (rendered : (⟨rules⟩ : Renderer S E).render aggregate = result) :
    (⟨rules ++ [r]⟩ : Renderer S E).render aggregate = result := by
  have keeps : ∀ eventType action, (⟨rules⟩ : Renderer S E).action eventType = some action →
      (⟨rules ++ [r]⟩ : Renderer S E).action eventType = some action :=
    fun eventType action found => action_append found
  unfold Renderer.render at rendered ⊢
  cases folded : (⟨rules⟩ : Renderer S E).stateOf aggregate.id aggregate.events with
  | ok state =>
      have folded' : (⟨rules ++ [r]⟩ : Renderer S E).stateOf aggregate.id aggregate.events =
          .ok state := foldlM_of_action keeps (fun e same => by cases same) folded
      rw [folded] at rendered
      rw [folded']
      exact rendered
  | error e =>
      rw [folded] at rendered
      have reducer : ¬ e.Unhandled := handled e rendered.symm
      have folded' : (⟨rules ++ [r]⟩ : Renderer S E).stateOf aggregate.id aggregate.events =
          .error e := by
        apply foldlM_of_action keeps _ folded
        intro e' same
        cases same
        exact reducer
      rw [folded']
      exact rendered

/-- The laws of rule precedence, for rules registered in order: a rule added at the end
changes nothing that was rendered or failed in a reducer; a rule behind one that covers
it changes nothing at all; adjacent rules that never match together commute; and an
error is that of the first event that cannot be rendered, all before it having been. -/
theorem precedence_laws (rules : List (EventPattern × Action S E)) (r : EventPattern × Action S E)
    (aggregate : Aggregate) :
    ((∀ entity, (ofRules rules).render aggregate = .ok entity →
        ((ofRules rules).add r).render aggregate = .ok entity) ∧
      ∀ context source, (ofRules rules).render aggregate = .error (.applyFailed context source) →
        ((ofRules rules).add r).render aggregate = .error (.applyFailed context source)) ∧
    (∀ before q between after, rules = before ++ q :: (between ++ after) →
      (∀ eventType, r.1.matches eventType = true → q.1.matches eventType = true) →
      (ofRules (before ++ q :: (between ++ r :: after))).render aggregate =
        (ofRules rules).render aggregate) ∧
    (∀ before q q' after, rules = before ++ q :: q' :: after →
      (∀ eventType, ¬ (q.1.matches eventType = true ∧ q'.1.matches eventType = true)) →
      (ofRules (before ++ q' :: q :: after)).render aggregate = (ofRules rules).render aggregate) ∧
    ∀ e, (ofRules rules).render aggregate = .error e →
      ∃ earlier event later reached, aggregate.events = earlier ++ event :: later ∧
        (ofRules rules).stateOf aggregate.id earlier = .ok reached ∧
        (ofRules rules).Fails aggregate.id reached event e := by
  simp only [ofRules_eq, rules_add]
  refine ⟨⟨?_, ?_⟩, ?_, ?_, ?_⟩
  · intro entity rendered
    exact render_append (fun e same => by cases same) rendered
  · intro context source failed
    apply render_append _ failed
    intro e same
    cases same
    exact id
  · rintro before q between after rfl covers
    exact render_congr (action_shadowed covers) aggregate
  · rintro before q q' after rfl apart
    exact (render_congr (action_swap apart) aggregate).symm
  · intro e failed
    unfold Renderer.render at failed
    cases folded : (⟨rules⟩ : Renderer S E).stateOf aggregate.id aggregate.events with
    | ok state =>
        rw [folded] at failed
        cases failed
    | error e' =>
        rw [folded] at failed
        cases failed
        exact foldlM_error folded

end Renderer
end WeeEvents
