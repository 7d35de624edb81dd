import WeeEvents.Foundation.Pool

/-!
# Linearizability

The calls of a concurrent run are explained by a sequential object when some
order of them, in which each takes effect at once, gives every call the result
it returned, and no call that returned before another began stands after it. The
order is built one call at a time, as each takes effect.
-/
namespace Foundation

structure SequentialObject (Call State Result : Type) where
  apply : Call → State → Result × State

/-- A call that took effect, with its result. -/
structure Completed (Call Result : Type) where
  caller : Nat
  call : Call
  result : Result

namespace SequentialObject

variable {Call State Result : Type} (object : SequentialObject Call State Result)

/-- The state after calls that took effect in this order. -/
def after (s : State) (order : List (Completed Call Result)) : State :=
  order.foldl (fun s entry => (object.apply entry.call s).2) s

@[simp] theorem after_nil (s : State) : object.after s [] = s := rfl

theorem after_concat (s : State) (order : List (Completed Call Result))
    (entry : Completed Call Result) :
    object.after s (order ++ [entry]) = (object.apply entry.call (object.after s order)).2 := by
  rw [after, List.foldl_append]
  rfl

end SequentialObject

section Trace

variable {Op : Type} {Res : Op → Type} {C R Call State Result : Type}
  {trace : List (Event Op Res C R)} {event : Event Op Res C R} {a b : Nat}

/-- Call `a` returned before call `b` began. -/
def ReturnsBefore (trace : List (Event Op Res C R)) (a b : Nat) : Prop :=
  ∃ call result call', [.returned a call result, .invoked b call'].Sublist trace

theorem ReturnsBefore.concat (h : ReturnsBefore (trace ++ [event]) a b) :
    ReturnsBefore trace a b ∨
      (∃ call', event = .invoked b call') ∧ ∃ call result, .returned a call result ∈ trace := by
  obtain ⟨call, result, call', within⟩ := h
  obtain ⟨early, late, split, inTrace, inEvent⟩ := List.sublist_append_iff.mp within
  have late_short : late.length ≤ 1 := by
    simpa using inEvent.length_le
  have total : early.length + late.length = 2 := by
    have lengths := congrArg List.length split
    simpa using lengths.symm
  match early, late, split with
  | [x, y], [], split =>
      cases split
      exact .inl ⟨call, result, call', inTrace⟩
  | [x], [y], split =>
      cases split
      have same : event = .invoked b call' := by
        have member := inEvent.subset (List.mem_singleton_self _)
        exact (List.mem_singleton.mp member).symm
      exact .inr ⟨⟨call', same⟩, call, result, inTrace.subset (List.mem_singleton_self _)⟩
  | [], _, _ =>
      simp only [List.length_nil] at total
      omega
  | _ :: _ :: _ :: _, _, _ =>
      simp only [List.length_cons] at total
      omega
  | [_], [], _ =>
      simp at total
  | [_], _ :: _ :: _, _ =>
      simp only [List.length_cons] at late_short
      omega
  | [_, _], _ :: _, _ =>
      simp only [List.length_cons, List.length_nil] at total
      omega

/-- An order in which the calls of a trace take effect: each at most once and only
after it began, with the object's results, and never after one that began later. -/
structure Linearization (object : SequentialObject Call State Result) (s₀ : State)
    (trace : List (Event Op Res C R)) (order : List (Completed Call Result)) : Prop where
  once : (order.map Completed.caller).Nodup
  begun : ∀ entry ∈ order, ∃ call, .invoked entry.caller call ∈ trace
  legal : ∀ before entry later, order = before ++ entry :: later →
    (object.apply entry.call (object.after s₀ before)).1 = entry.result
  realTime : ∀ x ∈ order, ∀ y ∈ order, ReturnsBefore trace x.caller y.caller → [x, y].Sublist order

namespace Linearization

variable {object : SequentialObject Call State Result} {s₀ : State}
  {order : List (Completed Call Result)}

theorem nil : Linearization object s₀ ([] : List (Event Op Res C R)) [] := by
  refine ⟨List.nodup_nil, ?_, ?_, ?_⟩
  · intro entry member
    cases member
  · intro before entry later split
    simp at split
  · intro x member
    cases member

/-- Events that begin no call of the order change nothing. -/
theorem extend (h : Linearization object s₀ trace order)
    (quiet : ∀ entry ∈ order, ∀ call, event ≠ .invoked entry.caller call) :
    Linearization object s₀ (trace ++ [event]) order := by
  refine ⟨h.once, ?_, h.legal, ?_⟩
  · intro entry member
    obtain ⟨call, invoked⟩ := h.begun entry member
    exact ⟨call, List.mem_append_left _ invoked⟩
  · intro x hx y hy before
    rcases before.concat with earlier | ⟨⟨call, same⟩, _⟩
    · exact h.realTime x hx y hy earlier
    · exact absurd same (quiet y hy call)

/-- A call that began, has not returned and took no effect so far takes effect now. -/
theorem point (h : Linearization object s₀ trace order) {entry : Completed Call Result}
    (begun : ∃ call, .invoked entry.caller call ∈ trace)
    (unreturned : ∀ call result, .returned entry.caller call result ∉ trace)
    (absent : entry.caller ∉ order.map Completed.caller)
    (result : (object.apply entry.call (object.after s₀ order)).1 = entry.result) :
    Linearization object s₀ trace (order ++ [entry]) := by
  refine ⟨?_, ?_, ?_, ?_⟩
  · rw [List.map_append, List.map_singleton]
    exact h.once.append (List.nodup_singleton _) (by simpa using absent)
  · intro e member
    rcases List.mem_append.mp member with old | new
    · exact h.begun e old
    · rw [List.mem_singleton.mp new]
      exact begun
  · intro before e later split
    rcases List.eq_nil_or_concat later with rfl | ⟨rest, last, rfl⟩
    · obtain ⟨rfl, same⟩ := List.append_inj' split rfl
      cases same
      exact result
    · rw [List.concat_eq_append, ← List.cons_append, ← List.append_assoc] at split
      obtain ⟨same, _⟩ := List.append_inj' split rfl
      exact h.legal before e rest same
  · intro x hx y hy before
    rcases List.mem_append.mp hx with oldX | newX
    · rcases List.mem_append.mp hy with oldY | newY
      · exact (h.realTime x oldX y oldY before).trans (List.sublist_append_left _ _)
      · rw [List.mem_singleton.mp newY]
        have first : [x].Sublist order := List.singleton_sublist.mpr oldX
        exact first.append (List.Sublist.refl [entry])
    · obtain ⟨call, res, call', within⟩ := before
      have returned : .returned x.caller call res ∈ trace := within.subset (by simp)
      rw [List.mem_singleton.mp newX] at returned
      exact absurd returned (unreturned call res)

end Linearization
end Trace
end Foundation
