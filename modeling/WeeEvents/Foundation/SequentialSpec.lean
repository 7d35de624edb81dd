import WeeEvents.Foundation.Linearizable

/-!
# Objects that may answer in several ways

A sequential object whose answers its state need not determine: what it may answer,
and the states it may be in then. A concurrent run is explained by such an object
when some order of its calls is a run of the object that respects real time. The
order is built one call at a time, as each takes effect.
-/
namespace Foundation

/-- What an object may answer to a call, and the state it is in then. -/
abbrev SequentialSpec (Call State Result : Type) : Type := State → Call → Result → State → Prop

namespace SequentialSpec

variable {Call State Result : Type} {spec : SequentialSpec Call State Result} {s t u : State}
  {order later : List (Completed Call Result)}

/-- Calls that take effect one after the other. -/
inductive Run (spec : SequentialSpec Call State Result) (s : State) :
    List (Completed Call Result) → State → Prop
  | nil : Run spec s [] s
  | snoc {order : List (Completed Call Result)} {entry : Completed Call Result} {t u : State} :
      Run spec s order t → spec t entry.call entry.result u → Run spec s (order ++ [entry]) u

theorem run_singleton {entry : Completed Call Result} :
    Run spec s [entry] t ↔ spec s entry.call entry.result t := by
  constructor
  · intro run
    generalize single : [entry] = only at run
    cases run with
    | nil => cases single
    | snoc before step =>
        obtain ⟨first, same⟩ := List.append_inj' (show [] ++ [entry] = _ from single) rfl
        subst first
        cases same
        generalize empty : [] = front at before
        cases before with
        | nil => exact step
        | snoc _ _ => simp at empty
  · exact Run.nil.snoc

/-- A run passes through a state at every point of its order. -/
theorem Run.split (run : Run spec s (order ++ later) u) :
    ∃ t, Run spec s order t ∧ Run spec t later u := by
  generalize whole : order ++ later = all at run
  induction run generalizing later with
  | nil =>
      obtain ⟨rfl, rfl⟩ := List.append_eq_nil_iff.mp whole
      exact ⟨s, .nil, .nil⟩
  | @snoc front entry v w before step ih =>
      rcases List.eq_nil_or_concat later with rfl | ⟨rest, last, rfl⟩
      · rw [List.append_nil] at whole
        exact ⟨w, whole ▸ before.snoc step, .nil⟩
      · rw [List.concat_eq_append] at whole ⊢
        rw [← List.append_assoc] at whole
        obtain ⟨same, last_same⟩ := List.append_inj' whole rfl
        obtain ⟨t, first, second⟩ := ih same
        cases last_same
        exact ⟨t, first, second.snoc step⟩

/-- Where one call of the order takes effect. -/
theorem Run.point {entry : Completed Call Result} (run : Run spec s (order ++ entry :: later) u) :
    ∃ t t', Run spec s order t ∧ spec t entry.call entry.result t' ∧ Run spec t' later u := by
  rw [← List.singleton_append] at run
  obtain ⟨t, before, rest⟩ := run.split
  obtain ⟨t', one, after⟩ := rest.split
  exact ⟨t, t', before, run_singleton.mp one, after⟩

/-- What every step keeps, a run keeps. -/
theorem Run.preserves {P : State → Prop} (run : Run spec s order t)
    (each : ∀ s call result t, spec s call result t → P s → P t) (start : P s) : P t := by
  induction run with
  | nil => exact start
  | snoc _ step ih => exact each _ _ _ _ step ih

theorem Run.mono {spec' : SequentialSpec Call State Result}
    (weaker : ∀ s call result t, spec s call result t → spec' s call result t) (run : Run spec s order t) :
    Run spec' s order t := by
  induction run with
  | nil => exact .nil
  | snoc _ step ih => exact ih.snoc (weaker _ _ _ _ step)

end SequentialSpec

/-! ### Explaining a concurrent run -/

section Trace

variable {Op : Type} {Res : Op → Type} {C R Call State Result : Type}
  {trace : List (Event Op Res C R)} {event : Event Op Res C R}
  {order : List (Completed Call Result)}

/-- Each call stands in the order once, and never after one that began when it had returned. -/
structure RealTimeOrder (trace : List (Event Op Res C R)) (order : List (Completed Call Result)) :
    Prop where
  once : (order.map Completed.caller).Nodup
  realTime : ∀ x ∈ order, ∀ y ∈ order, ReturnsBefore trace x.caller y.caller → [x, y].Sublist order

theorem RealTimeOrder.nil : RealTimeOrder trace ([] : List (Completed Call Result)) :=
  ⟨List.nodup_nil, nofun⟩

/-- Events that begin no call of the order change nothing. -/
theorem RealTimeOrder.extend (h : RealTimeOrder trace order)
    (quiet : ∀ entry ∈ order, ∀ call, event ≠ .invoked entry.caller call) :
    RealTimeOrder (trace ++ [event]) order where
  once := h.once
  realTime x hx y hy before := by
    rcases before.concat with earlier | ⟨⟨call, same⟩, _⟩
    · exact h.realTime x hx y hy earlier
    · exact absurd same (quiet y hy call)

/-- A call that has not returned and does not stand in the order yet comes last. -/
theorem RealTimeOrder.concat (h : RealTimeOrder trace order) {entry : Completed Call Result}
    (unreturned : ∀ call result, .returned entry.caller call result ∉ trace)
    (absent : entry.caller ∉ order.map Completed.caller) :
    RealTimeOrder trace (order ++ [entry]) where
  once := by
    rw [List.map_append, List.map_singleton]
    exact h.once.append (List.nodup_singleton _) (by simpa using absent)
  realTime x hx y hy before := by
    rcases List.mem_append.mp hx with oldX | newX
    · rcases List.mem_append.mp hy with oldY | newY
      · exact (h.realTime x oldX y oldY before).trans (List.sublist_append_left _ _)
      · rw [List.mem_singleton.mp newY]
        exact (List.singleton_sublist.mpr oldX).append (List.Sublist.refl [entry])
    · obtain ⟨call, res, call', within⟩ := before
      have returned : .returned x.caller call res ∈ trace := within.subset (by simp)
      rw [List.mem_singleton.mp newX] at returned
      exact absurd returned (unreturned call res)

/-- A call between two others is neither of them. -/
theorem RealTimeOrder.between (h : RealTimeOrder trace order)
    {first between last : List (Completed Call Result)} {x y : Completed Call Result}
    (split : order = first ++ x :: (between ++ y :: last)) :
    ∀ entry ∈ between, entry.caller ≠ x.caller ∧ entry.caller ≠ y.caller := by
  intro entry member
  have once := h.once
  obtain ⟨front, rest, rfl⟩ := List.append_of_mem member
  have places : [x, entry, y].Sublist order := by
    rw [split]
    refine List.sublist_append_of_sublist_right (.cons_cons x ?_)
    rw [List.append_assoc, List.cons_append]
    exact List.sublist_append_of_sublist_right (.cons_cons entry (by simp))
  have apart := once.sublist (places.map Completed.caller)
  simp only [List.map_cons, List.map_nil, List.nodup_cons, List.mem_cons, List.not_mem_nil, or_false,
    not_or] at apart
  exact ⟨Ne.symm apart.1.1, apart.2.1⟩

/-- The first calls of an order, with all that returned before a call began. -/
structure Recent (trace : List (Event Op Res C R)) (order front : List (Completed Call Result)) (c : Nat) :
    Prop where
  first : front <+: order
  returned : ∀ entry ∈ order, ReturnsBefore trace entry.caller c → entry ∈ front

theorem Recent.now (trace : List (Event Op Res C R)) (order : List (Completed Call Result)) (c : Nat) :
    Recent trace order order c :=
  ⟨List.prefix_refl _, fun _ member _ => member⟩

theorem Recent.extend {front : List (Completed Call Result)} {c : Nat} (h : Recent trace order front c)
    (quiet : ∀ call, event ≠ .invoked c call) : Recent (trace ++ [event]) order front c where
  first := h.first
  returned entry member before := by
    rcases before.concat with earlier | ⟨⟨call, same⟩, _⟩
    · exact h.returned entry member earlier
    · exact absurd same (quiet call)

/-- A call that has not returned is no call that returned before. -/
theorem Recent.concat {front : List (Completed Call Result)} {c : Nat} (h : Recent trace order front c)
    {entry : Completed Call Result} (unreturned : ∀ call result, .returned entry.caller call result ∉ trace) :
    Recent trace (order ++ [entry]) front c where
  first := h.first.trans (List.prefix_append _ _)
  returned other member before := by
    rcases List.mem_append.mp member with old | new
    · exact h.returned other old before
    · obtain ⟨call, result, call', within⟩ := before
      rw [List.mem_singleton.mp new] at within
      exact absurd (within.subset (by simp)) (unreturned call result)

/-- The order after a step of call `c`: as it was, or with that call at its end. -/
inductive GrownBy (c : Nat) (order : List (Completed Call Result)) : List (Completed Call Result) → Prop
  | same : GrownBy c order order
  | one {entry : Completed Call Result} : entry.caller = c → GrownBy c order (order ++ [entry])

section GrownBy

variable {order' front : List (Completed Call Result)} {c c' : Nat}

theorem GrownBy.absent (h : GrownBy c order order') (ne : c' ≠ c)
    (none : c' ∉ order.map Completed.caller) : c' ∉ order'.map Completed.caller := by
  cases h with
  | same => exact none
  | one mine =>
      rw [List.map_append, List.map_singleton, mine]
      intro member
      rcases List.mem_append.mp member with old | new
      · exact none old
      · exact ne (List.mem_singleton.mp new)

theorem Recent.grown (h : Recent trace order front c') (grown : GrownBy c order order')
    (unreturned : ∀ call result, .returned c call result ∉ trace) : Recent trace order' front c' := by
  cases grown with
  | same => exact h
  | one mine =>
      subst mine
      exact h.concat unreturned

end GrownBy

/-- Call `c` asked the object for something, and returned with that result. -/
def Answered (asks : C → Option Call) (answers : R → Option Result)
    (trace : List (Event Op Res C R)) (c : Nat) (asked : Call) (result : Result) : Prop :=
  ∃ call r, .returned c call r ∈ trace ∧ asks call = some asked ∧ answers r = some result

/-- The calls of a trace that ask something of the object, in an order in which the object
may answer them as it did. -/
structure ExplainedBy (spec : SequentialSpec Call State Result) (asks : C → Option Call)
    (answers : R → Option Result) (s₀ : State) (trace : List (Event Op Res C R))
    (order : List (Completed Call Result)) (s : State) : Prop where
  run : SequentialSpec.Run spec s₀ order s
  ordered : RealTimeOrder trace order
  own : ∀ entry ∈ order, ∃ call, .invoked entry.caller call ∈ trace ∧ asks call = some entry.call
  complete : ∀ c call r asked, .returned c call r ∈ trace → asks call = some asked →
    ∃ result, answers r = some result ∧ ⟨c, asked, result⟩ ∈ order

namespace ExplainedBy

variable {spec : SequentialSpec Call State Result} {asks : C → Option Call}
  {answers : R → Option Result} {s₀ s s' : State} {c : Nat} {call : C}

theorem nil : ExplainedBy spec asks answers s₀ ([] : List (Event Op Res C R)) [] s₀ :=
  ⟨.nil, .nil, nofun, nofun⟩

/-- What explains a run also does so where more may be answered. -/
theorem mono {spec' : SequentialSpec Call State Result}
    (weaker : ∀ s call result t, spec s call result t → spec' s call result t)
    (h : ExplainedBy spec asks answers s₀ trace order s) : ExplainedBy spec' asks answers s₀ trace order s where
  run := h.run.mono weaker
  ordered := h.ordered
  own := h.own
  complete := h.complete

/-- An operation, or a call that begins. -/
theorem extend (h : ExplainedBy spec asks answers s₀ trace order s)
    (fresh : ∀ c call, event = .invoked c call → ∀ entry ∈ order, entry.caller ≠ c)
    (open_ : ∀ c call r, event ≠ .returned c call r) :
    ExplainedBy spec asks answers s₀ (trace ++ [event]) order s where
  run := h.run
  ordered := h.ordered.extend fun entry member call same => fresh _ call same entry member rfl
  own entry member := by
    obtain ⟨call, invoked, asked⟩ := h.own entry member
    exact ⟨call, List.mem_append_left _ invoked, asked⟩
  complete c call r asked returned asking := by
    rcases List.mem_append.mp returned with old | new
    · exact h.complete c call r asked old asking
    · exact absurd (List.mem_singleton.mp new).symm (open_ c call r)

/-- A call that returns what it is in the order with. -/
theorem finish {r : R} (h : ExplainedBy spec asks answers s₀ trace order s)
    (stands : ∀ asked, asks call = some asked →
      ∃ result, answers r = some result ∧ ⟨c, asked, result⟩ ∈ order) :
    ExplainedBy spec asks answers s₀ (trace ++ [.returned c call r]) order s where
  run := h.run
  ordered := h.ordered.extend nofun
  own entry member := by
    obtain ⟨call, invoked, asked⟩ := h.own entry member
    exact ⟨call, List.mem_append_left _ invoked, asked⟩
  complete c' call' r' asked returned asking := by
    rcases List.mem_append.mp returned with old | new
    · exact h.complete c' call' r' asked old asking
    · cases List.mem_singleton.mp new
      exact stands asked asking

/-- A call that began, has not returned and had no effect so far takes effect now. -/
theorem point (h : ExplainedBy spec asks answers s₀ trace order s) {asked : Call} {result : Result}
    (invoked : .invoked c call ∈ trace) (asking : asks call = some asked)
    (unreturned : ∀ call result, .returned c call result ∉ trace)
    (absent : c ∉ order.map Completed.caller) (step : spec s asked result s') :
    ExplainedBy spec asks answers s₀ trace (order ++ [⟨c, asked, result⟩]) s' where
  run := h.run.snoc step
  ordered := h.ordered.concat unreturned absent
  own entry member := by
    rcases List.mem_append.mp member with old | new
    · exact h.own entry old
    · rw [List.mem_singleton.mp new]
      exact ⟨call, invoked, asking⟩
  complete c' call' r asked' returned asking' := by
    obtain ⟨result', answered, stands⟩ := h.complete c' call' r asked' returned asking'
    exact ⟨result', answered, List.mem_append_left _ stands⟩

variable {a b : Nat} {asked asked' : Call} {result result' : Result}

theorem answered_mem (h : ExplainedBy spec asks answers s₀ trace order s)
    (answered : Answered asks answers trace a asked result) : ⟨a, asked, result⟩ ∈ order := by
  obtain ⟨call, r, returned, asking, answer⟩ := answered
  obtain ⟨result', same, stands⟩ := h.complete a call r asked returned asking
  cases answer.symm.trans same
  exact stands

/-- Where a call that returned took effect. -/
theorem effect (h : ExplainedBy spec asks answers s₀ trace order s)
    (answered : Answered asks answers trace a asked result) : ∃ first last t t',
      order = first ++ ⟨a, asked, result⟩ :: last ∧ SequentialSpec.Run spec s₀ first t ∧
      spec t asked result t' ∧ SequentialSpec.Run spec t' last s := by
  obtain ⟨first, last, split⟩ := List.append_of_mem (h.answered_mem answered)
  obtain ⟨t, t', early, step, late⟩ := (split ▸ h.run).point
  exact ⟨first, last, t, t', split, early, step, late⟩

/-- Of two calls the one that returned before the other began took effect first. -/
theorem effects (h : ExplainedBy spec asks answers s₀ trace order s)
    (answered : Answered asks answers trace a asked result)
    (answered' : Answered asks answers trace b asked' result') (before : ReturnsBefore trace a b) :
    ∃ first between last t t' u u',
      order = first ++ ⟨a, asked, result⟩ :: (between ++ ⟨b, asked', result'⟩ :: last) ∧
      (∀ entry ∈ between, entry.caller ≠ a ∧ entry.caller ≠ b) ∧
      SequentialSpec.Run spec s₀ first t ∧ spec t asked result t' ∧
      SequentialSpec.Run spec t' between u ∧ spec u asked' result' u' ∧
      SequentialSpec.Run spec u' last s := by
  obtain ⟨front, back, split, inFront, inBack⟩ := List.cons_sublist_iff.mp
    (h.ordered.realTime _ (h.answered_mem answered) _ (h.answered_mem answered') before)
  obtain ⟨first, between, rfl⟩ := List.append_of_mem inFront
  obtain ⟨more, last, rfl⟩ := List.append_of_mem (List.singleton_sublist.mp inBack)
  have whole : order = first ++ ⟨a, asked, result⟩ ::
      ((between ++ more) ++ ⟨b, asked', result'⟩ :: last) := by
    rw [split]
    simp
  obtain ⟨t, t', early, step, rest⟩ := (whole ▸ h.run).point
  obtain ⟨u, u', middle, step', late⟩ := rest.point
  exact ⟨first, between ++ more, last, t, t', u, u', whole, h.ordered.between whole, early, step,
    middle, step', late⟩

end ExplainedBy

/-- An order in which an object explains a trace is a run of every specification that the object
meets in the states it can be in. -/
theorem Linearization.run {State' : Type} {object : SequentialObject Call State Result}
    {spec : SequentialSpec Call State' Result} {view : State → State'} {inv : State → Prop} {s₀ : State}
    (h : Linearization object s₀ trace order) (start : inv s₀)
    (keeps : ∀ call s, inv s → inv (object.apply call s).2)
    (meets : ∀ call s, inv s →
      spec (view s) call (object.apply call s).1 (view (object.apply call s).2)) :
    SequentialSpec.Run spec (view s₀) order (view (object.after s₀ order)) := by
  have each : ∀ front, front <+: order → inv (object.after s₀ front) ∧
      SequentialSpec.Run spec (view s₀) front (view (object.after s₀ front)) := by
    intro front
    induction front using List.reverseRecOn with
    | nil => exact fun _ => ⟨start, .nil⟩
    | append_singleton front entry ih =>
        intro prior
        obtain ⟨held, run⟩ := ih ((List.prefix_append _ _).trans prior)
        obtain ⟨rest, split⟩ := prior
        rw [List.append_assoc] at split
        have result := h.legal front entry rest split.symm
        have step := meets entry.call _ held
        rw [object.after_concat]
        exact ⟨keeps _ _ held, run.snoc (result ▸ step)⟩
  exact (each order (List.prefix_refl _)).2

end Trace
end Foundation
