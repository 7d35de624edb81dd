import Mathlib

/-!
# Machines that may go wrong

A step that has no result goes wrong. An invariant under which every step has a
result, and which every step keeps, rules that out for whole runs; a measure that
falls until the machine is done bounds how long it takes.
-/
namespace Foundation

variable {σ : Type}

/-- `n` steps in a row; `none` as soon as one goes wrong. -/
def steps (step : σ → Option σ) : Nat → σ → Option σ
  | 0, s => some s
  | n + 1, s => (steps step n s).bind step

variable {step : σ → Option σ} {s t u : σ} {m n : Nat}

theorem steps_succ_of_step (first : step s = some t) (rest : steps step n t = some u) :
    steps step (n + 1) s = some u := by
  induction n generalizing u with
  | zero =>
      cases rest
      exact first
  | succ n ih =>
      obtain ⟨before, reached, last⟩ := Option.bind_eq_some_iff.mp rest
      exact Option.bind_eq_some_iff.mpr ⟨before, ih reached, last⟩

/-- Where the invariant holds, a step does not go wrong and keeps it. -/
structure Safe (step : σ → Option σ) (invariant : σ → Prop) : Prop where
  goes : ∀ s, invariant s → ∃ t, step s = some t
  keeps : ∀ s t, invariant s → step s = some t → invariant t

namespace Safe

variable {invariant : σ → Prop} (safe : Safe step invariant)

include safe

theorem kept (begins : invariant s) (reached : steps step n s = some t) : invariant t := by
  induction n generalizing t with
  | zero =>
      cases reached
      exact begins
  | succ n ih =>
      obtain ⟨before, earlier, last⟩ := Option.bind_eq_some_iff.mp reached
      exact safe.keeps before t (ih earlier) last

/-- No run goes wrong. -/
theorem total (begins : invariant s) (n : Nat) : ∃ t, steps step n s = some t := by
  induction n with
  | zero => exact ⟨s, rfl⟩
  | succ n ih =>
      obtain ⟨before, reached⟩ := ih
      obtain ⟨t, next⟩ := safe.goes before (safe.kept begins reached)
      exact ⟨t, Option.bind_eq_some_iff.mpr ⟨before, reached, next⟩⟩

/-- The machine is done after at most as many steps as the measure says. -/
theorem finishes {done : σ → Prop} {measure : σ → Nat}
    (falls : ∀ s t, invariant s → step s = some t → done s ∨ measure t < measure s)
    (begins : invariant s) :
    ∃ n ≤ measure s, ∃ t, steps step n s = some t ∧ done t := by
  induction left : measure s using Nat.strong_induction_on generalizing s with
  | _ left ih =>
      obtain ⟨t, next⟩ := safe.goes s begins
      rcases falls s t begins next with finished | less
      · exact ⟨0, Nat.zero_le _, s, rfl, finished⟩
      · obtain ⟨n, few, u, reached, finished⟩ :=
          ih (measure t) (left ▸ less) (safe.keeps s t begins next) rfl
        exact ⟨n + 1, by omega, u, steps_succ_of_step next reached, finished⟩

/-- What every step relates, every stretch of a run relates. -/
theorem relates {r : σ → σ → Prop} (reflexive : ∀ s, r s s)
    (transitive : ∀ {s t u}, r s t → r t u → r s u)
    (each : ∀ s t, invariant s → step s = some t → r s t) (begins : invariant s)
    (order : m ≤ n) (early : steps step m s = some t) (late : steps step n s = some u) : r t u := by
  induction order generalizing u with
  | refl =>
      cases early.symm.trans late
      exact reflexive t
  | step _ ih =>
      obtain ⟨before, reached, last⟩ := Option.bind_eq_some_iff.mp late
      exact transitive (ih reached) (each before u (safe.kept begins reached) last)

end Safe

end Foundation
