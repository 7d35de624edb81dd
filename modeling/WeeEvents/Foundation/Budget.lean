import WeeEvents.Foundation.Pool

/-!
# What a program may spend

Operations have a cost. A program that costs no more than its budget, whatever it is
answered, spends no more than that in any run among others.
-/
namespace Foundation

variable {Op : Type} {Res : Op → Type} {α β ε : Type} {cost : Op → Nat}

/-- What is left of the budget. No operation may cost more. -/
def budget (Res : Op → Type) (cost : Op → Nat) : Discipline Op Res Nat where
  may left op := cost op ≤ left
  learn left op _ := left - cost op

/-- However it is answered, the program spends no more than this. -/
def CostsAtMost (cost : Op → Nat) (p : Program Op Res α) (n : Nat) : Prop :=
  (budget Res cost).Obeys (fun _ _ => True) p n

namespace CostsAtMost

variable {p : Program Op Res α} {m n : Nat}

theorem ret (a : α) (n : Nat) : CostsAtMost cost (Program.ret a : Program Op Res α) n := trivial

theorem call {op : Op} {next : Res op → Program Op Res α} (h : ∀ r, CostsAtMost cost (next r) n) :
    CostsAtMost cost (.call op next) (cost op + n) := by
  refine ⟨Nat.le_add_right _ _, fun r => ?_⟩
  change CostsAtMost cost (next r) (cost op + n - cost op)
  rw [Nat.add_sub_cancel_left]
  exact h r

theorem mono (h : CostsAtMost cost p m) (le : m ≤ n) : CostsAtMost cost p n := by
  induction p generalizing m n with
  | ret a => exact trivial
  | call op next ih =>
      refine ⟨h.1.trans le, fun r => ih r (h.2 r) ?_⟩
      exact Nat.sub_le_sub_right le _

theorem bind {f : α → Program Op Res β} (h : CostsAtMost cost p m) (after : ∀ a, CostsAtMost cost (f a) n) :
    CostsAtMost cost (p.bind f) (m + n) := by
  induction p generalizing m with
  | ret a => exact (after a).mono (Nat.le_add_left n m)
  | call op next ih =>
      refine ⟨h.1.trans (Nat.le_add_right m n), fun r => ?_⟩
      have rest := ih r (h.2 r)
      have left : m - cost op + n = m + n - cost op := by
        have enough : cost op ≤ m := h.1
        omega
      change CostsAtMost cost _ (m + n - cost op)
      rw [← left]
      exact rest

theorem andThen {p : Program Op Res (Except ε α)} {f : α → Program Op Res (Except ε β)}
    (h : CostsAtMost cost p m) (after : ∀ a, CostsAtMost cost (f a) n) :
    CostsAtMost cost (p.andThen f) (m + n) := by
  refine h.bind fun r => ?_
  cases r with
  | ok a => exact after a
  | error e => exact ret _ _

/-- A program of other operations that all come free. -/
theorem free_lift {Op' : Type} {Res' : Op' → Type} {inject : Op' → Op}
    {project : (op : Op') → Res (inject op) → Res' op} (free : ∀ op, cost (inject op) = 0)
    (p : Program Op' Res' α) : CostsAtMost cost (p.lift inject project) 0 := by
  induction p with
  | ret a => exact trivial
  | call op next ih =>
      refine ⟨(free op).le, fun r => ?_⟩
      change CostsAtMost cost _ (0 - cost (inject op))
      rw [Nat.zero_sub]
      exact ih _

end CostsAtMost

/-! ### Among others -/

section Spent

variable {C R : Type} {trace : List (Event Op Res C R)}

/-- What one event costs call `c`. -/
def Event.costTo (cost : Op → Nat) (c : Nat) : Event Op Res C R → Nat
  | .performed c' _ op _ => if c' = c then cost op else 0
  | _ => 0

/-- What call `c` has spent. -/
def spent (cost : Op → Nat) (trace : List (Event Op Res C R)) (c : Nat) : Nat :=
  (trace.map (Event.costTo cost c)).sum

theorem spent_concat (event : Event Op Res C R) (c : Nat) :
    spent cost (trace ++ [event]) c = spent cost trace c + event.costTo cost c := by
  simp [spent]

theorem costTo_other {event : Event Op Res C R} {c : Nat} (other : event.caller ≠ c) :
    event.costTo cost c = 0 := by
  cases event with
  | invoked => rfl
  | returned => rfl
  | performed c' call op r => exact if_neg other

theorem spent_fresh {c : Nat} (fresh : ∀ event ∈ trace, event.caller ≠ c) : spent cost trace c = 0 := by
  refine List.sum_eq_zero fun n member => ?_
  obtain ⟨event, inTrace, rfl⟩ := List.mem_map.mp member
  exact costTo_other (fresh event inTrace)

end Spent

/-- A running call has what it still costs left of its budget, and no call overspends. -/
theorem Pool.ReachableBy.spent_le {S : System} {allowed : S.Shared → S.Happening → Prop} {s₀ : S.Shared}
    {cost : S.Op → Nat} {bound : S.Call → Nat} (costs : ∀ call, CostsAtMost cost (S.program call) (bound call))
    {p : Pool S} (reach : ReachableBy allowed s₀ p) :
    (∀ c call prog, p.running c = some (call, prog) → ∃ left, CostsAtMost cost prog left ∧
      spent cost p.trace c + left ≤ bound call) ∧
    ∀ c call, .invoked c call ∈ p.trace → spent cost p.trace c ≤ bound call := by
  induction reach with
  | start => exact ⟨(fun c call prog busy => by cases busy), fun c call member => by cases member⟩
  | @step p q event before permitted taken ih =>
      obtain ⟨running, within⟩ := ih
      cases taken with
      | @invoke c call fresh may =>
          have none : ∀ c', spent cost (p.trace ++ [.invoked c call]) c' = spent cost p.trace c' :=
            fun c' => (spent_concat _ c').trans (Nat.add_zero _)
          refine ⟨fun c' call' prog busy => ?_, fun c' call' member => ?_⟩
          · rw [none]
            rcases eq_or_ne c' c with rfl | ne
            · simp only [Function.update_self, Option.some.injEq, Prod.mk.injEq] at busy
              obtain ⟨rfl, rfl⟩ := busy
              refine ⟨bound call, costs call, ?_⟩
              rw [spent_fresh fresh, Nat.zero_add]
            · simp only [Function.update_of_ne ne] at busy
              exact running c' call' prog busy
          · rw [none]
            rcases List.mem_append.mp member with old | new
            · exact within c' call' old
            · cases List.mem_singleton.mp new
              rw [spent_fresh fresh]
              exact Nat.zero_le _
      | @perform c call op next r s' busy stepped =>
          obtain ⟨left, affords, enough⟩ := running c call _ busy
          obtain ⟨affordable, rest⟩ := affords
          have costly : cost op ≤ left := affordable
          have others : ∀ c', c' ≠ c → spent cost (p.trace ++ [.performed c call op r]) c' = spent cost p.trace c' :=
            fun c' ne => by rw [spent_concat, costTo_other (Ne.symm ne), Nat.add_zero]
          have mine : spent cost (p.trace ++ [.performed c call op r]) c = spent cost p.trace c + cost op := by
            rw [spent_concat, Event.costTo, if_pos rfl]
          refine ⟨fun c' call' prog busy' => ?_, fun c' call' member => ?_⟩
          · rcases eq_or_ne c' c with rfl | ne
            · simp only [Function.update_self, Option.some.injEq, Prod.mk.injEq] at busy'
              obtain ⟨rfl, rfl⟩ := busy'
              refine ⟨left - cost op, rest r, ?_⟩
              rw [mine]
              omega
            · simp only [Function.update_of_ne ne] at busy'
              rw [others c' ne]
              exact running c' call' prog busy'
          · have old : .invoked c' call' ∈ p.trace := by simpa using member
            rcases eq_or_ne c' c with rfl | ne
            · obtain rfl := before.invoked_unique old (before.running_invoked busy)
              rw [mine]
              omega
            · rw [others c' ne]
              exact within c' call' old
      | @finish c call result busy =>
          have none : ∀ c', spent cost (p.trace ++ [.returned c call result]) c' = spent cost p.trace c' :=
            fun c' => (spent_concat _ c').trans (Nat.add_zero _)
          refine ⟨fun c' call' prog busy' => ?_, fun c' call' member => ?_⟩
          · rw [none]
            rcases eq_or_ne c' c with rfl | ne
            · simp at busy'
            · simp only [Function.update_of_ne ne] at busy'
              exact running c' call' prog busy'
          · rw [none]
            exact within c' call' (by simpa using member)

end Foundation
