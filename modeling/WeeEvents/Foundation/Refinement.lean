import WeeEvents.Foundation.Linearizable

/-!
# Programs over operations that take steps

Callers run programs over the operations of an object, and each operation is itself
a program of smaller steps that others interleave with. Where every operation takes
effect at one of its steps, or fails without one, a run of the small steps is a run
in which the operations are whole: the same calls begin and return, in the same
order and with the same results.
-/
namespace Foundation

/-! ### What callers see -/

/-- An event that the caller sees. -/
inductive Boundary (C R : Type) where
  | invoked (c : Nat) (call : C)
  | returned (c : Nat) (call : C) (result : R)

section Boundaries

variable {Op : Type} {Res : Op → Type} {C R : Type} {trace : List (Event Op Res C R)}
  {c : Nat} {call : C} {result : R}

def Event.boundary : Event Op Res C R → Option (Boundary C R)
  | .invoked c call => some (.invoked c call)
  | .performed _ _ _ _ => none
  | .returned c call result => some (.returned c call result)

def boundaries (trace : List (Event Op Res C R)) : List (Boundary C R) :=
  trace.filterMap Event.boundary

theorem boundary_eq_invoked {event : Event Op Res C R} :
    event.boundary = some (.invoked c call) ↔ event = .invoked c call := by
  cases event <;> simp [Event.boundary]

@[simp] theorem boundaries_concat (event : Event Op Res C R) :
    boundaries (trace ++ [event]) = boundaries trace ++ event.boundary.toList := by
  rw [boundaries, List.filterMap_append, boundaries]
  cases seen : event.boundary <;> simp [seen]

theorem invoked_mem_boundaries : .invoked c call ∈ boundaries trace ↔ .invoked c call ∈ trace := by
  rw [boundaries, List.mem_filterMap]
  constructor
  · rintro ⟨event, member, seen⟩
    rwa [boundary_eq_invoked.mp seen] at member
  · exact fun member => ⟨_, member, rfl⟩

end Boundaries

/-! ### Operations that take effect -/

section Refinement

variable {C R A O τ σ K E : Type} {ResA : A → Type} {Res : O → Type}

/-- The result of an operation is its effect. Without one it may have that result anywhere. -/
def EndsWith (whole : τ → (a : A) → ResA a → τ → Prop) (means : (a : A) → E → ResA a → Prop) (a : A) :
    Option E → ResA a → Prop
  | some e, r => means a e r
  | none, r => ∀ t, whole t a r t

/-- Operations and the programs that carry them out. Each has its effect at one of its steps at
most, where the larger object takes the operation as a whole; other steps leave the larger object
as it was. What an operation knows stays true while others take steps. -/
structure Implementation (C R : Type) (ResA : A → Type) (Res : O → Type) (τ σ K E : Type) where
  body : C → (a : A) → Program O Res (ResA a)
  whole : τ → (a : A) → ResA a → τ → Prop
  step : Nat → C → σ → (o : O) → Res o → σ → Prop
  allowed : σ → Event O Res C R → Prop
  rel : σ → τ → Prop
  discipline : A → Discipline O Res K
  start : A → K
  holds : A → K → σ → Prop
  effect : K → Option E
  means : (a : A) → E → ResA a → Prop
  unique : ∀ {a e r r'}, means a e r → means a e r' → r = r'
  idle : ∀ a, effect (start a) = none
  obeys : ∀ call a, (discipline a).Obeys (fun k r => EndsWith whole means a (effect k) r) (body call a) (start a)
  begins : ∀ {s t}, rel s t → ∀ a, holds a (start a) s
  steps : ∀ {s t c call a k o r s'}, rel s t → holds a k s → (discipline a).may k o →
    allowed s (.performed c call o r) → step c call s o r s' →
    holds a ((discipline a).learn k o r) s' ∧ (∀ a' k', holds a' k' s → holds a' k' s') ∧
      ((effect ((discipline a).learn k o r) = effect k ∧ rel s' t) ∨
        ∃ e ra t', effect k = none ∧ effect ((discipline a).learn k o r) = some e ∧ means a e ra ∧
          whole t a ra t' ∧ rel s' t')

/-- Calls that perform whole operations. -/
abbrev wholeOperations (program : C → Program A ResA R) (whole : τ → (a : A) → ResA a → τ → Prop) :
    System where
  Op := A
  Res := ResA
  Shared := τ
  Call := C
  Result := R
  program := program
  step _ _ := whole

/-- The same calls, taking the steps of each operation. -/
abbrev operationsInSteps (program : C → Program A ResA R) (body : C → (a : A) → Program O Res (ResA a))
    (step : Nat → C → σ → (o : O) → Res o → σ → Prop) : System where
  Op := O
  Res := Res
  Shared := σ
  Call := C
  Result := R
  program call := (program call).implement (body call)
  step := step

namespace Implementation

variable {I : Implementation C R ResA Res τ σ K E} {call : C} {s s' : σ}

/-- What an operation does from here, given what it knows. -/
abbrev Continues (I : Implementation C R ResA Res τ σ K E) (a : A) (rest : Program O Res (ResA a)) (k : K)
    (s : σ) : Prop :=
  (I.discipline a).Obeys (fun k r => EndsWith I.whole I.means a (I.effect k) r) rest k ∧ I.holds a k s

/-- What is left of a call in steps, against what is left of it in whole operations. The operation
it is in the middle of has not had its effect, or has had it. -/
inductive Follows (I : Implementation C R ResA Res τ σ K E) (call : C) (s : σ) :
    Program O Res R → Program A ResA R → Prop
  | returned {r : R} : Follows I call s (.ret r) (.ret r)
  | pending {a : A} {next : ResA a → Program A ResA R} {rest : Program O Res (ResA a)} {k : K} :
      I.Continues a rest k s → I.effect k = none →
      Follows I call s (rest.bind fun r => (next r).implement (I.body call)) (.call a next)
  | settled {a : A} {next : ResA a → Program A ResA R} {rest : Program O Res (ResA a)} {k : K} {e : E}
      {ra : ResA a} : I.Continues a rest k s → I.effect k = some e → I.means a e ra →
      Follows I call s (rest.bind fun r => (next r).implement (I.body call)) (next ra)

/-- The same, where the next thing the call does shows. -/
inductive Ready (I : Implementation C R ResA Res τ σ K E) (call : C) (s : σ) :
    Program O Res R → Program A ResA R → Prop
  | returned {r : R} : Ready I call s (.ret r) (.ret r)
  | pending {a : A} {next : ResA a → Program A ResA R} {o : O} {rest : Res o → Program O Res (ResA a)}
      {k : K} : I.Continues a (.call o rest) k s → I.effect k = none →
      Ready I call s (.call o fun r => (rest r).bind fun r => (next r).implement (I.body call)) (.call a next)
  | settled {a : A} {next : ResA a → Program A ResA R} {o : O} {rest : Res o → Program O Res (ResA a)}
      {k : K} {e : E} {ra : ResA a} : I.Continues a (.call o rest) k s → I.effect k = some e → I.means a e ra →
      Ready I call s (.call o fun r => (rest r).bind fun r => (next r).implement (I.body call)) (next ra)

theorem follows_implement {t : τ} (related : I.rel s t) (whole : Program A ResA R) :
    I.Follows call s (whole.implement (I.body call)) whole := by
  cases whole with
  | ret r => exact .returned
  | call a next => exact .pending ⟨I.obeys call a, I.begins related a⟩ (I.idle a)

/-- The steps of others leave a call where it is. -/
theorem Follows.frame {steps : Program O Res R} {whole : Program A ResA R} (h : I.Follows call s steps whole)
    (frame : ∀ a k, I.holds a k s → I.holds a k s') : I.Follows call s' steps whole := by
  cases h with
  | returned => exact .returned
  | pending continues undecided => exact .pending ⟨continues.1, frame _ _ continues.2⟩ undecided
  | settled continues effect meant => exact .settled ⟨continues.1, frame _ _ continues.2⟩ effect meant

/-! ### Catching up -/

/-- The pool is further on in one call, and nobody else can tell. -/
structure Ahead {S : System} (c : Nat) (p q : Pool S) : Prop where
  shared : q.shared = p.shared
  seen : boundaries q.trace = boundaries p.trace
  others : ∀ c', c' ≠ c → q.running c' = p.running c'

theorem Ahead.refl {S : System} (c : Nat) (p : Pool S) : Ahead c p p := ⟨rfl, rfl, fun _ _ => rfl⟩

theorem Ahead.trans {S : System} {c : Nat} {p q r : Pool S} (h : Ahead c p q) (h' : Ahead c q r) :
    Ahead c p r :=
  ⟨h'.shared.trans h.shared, h'.seen.trans h.seen, fun c' ne => (h'.others c' ne).trans (h.others c' ne)⟩

/-- An operation that leaves the shared state is a step ahead. -/
theorem ahead_perform {S : System} {t₀ : S.Shared} {p : Pool S} {c : Nat} {call : S.Call} {op : S.Op}
    {next : S.Res op → Program S.Op S.Res S.Result} {result : S.Res op} (reach : Pool.Reachable t₀ p)
    (running : p.running c = some (call, .call op next)) (step : S.step c call p.shared op result p.shared) :
    ∃ q, Pool.Reachable t₀ q ∧ Ahead c p q ∧ q.running c = some (call, next result) := by
  refine ⟨_, reach.step trivial (.perform running step), ⟨rfl, ?_, fun c' ne => ?_⟩, Function.update_self ..⟩
  · exact (boundaries_concat _).trans (List.append_nil _)
  · exact Function.update_of_ne ne ..

section Catching

variable {program : C → Program A ResA R} {t₀ : τ} {c : Nat} {p : Pool (wholeOperations program I.whole)}

/-- Operations that fail at once, before any step, are performed as wholes. -/
theorem ready_implement {whole : Program A ResA R} (related : I.rel s p.shared)
    (reach : Pool.Reachable t₀ p) (running : p.running c = some (call, whole)) :
    ∃ q whole', Pool.Reachable t₀ q ∧ Ahead c p q ∧ q.running c = some (call, whole') ∧
      I.Ready call s (whole.implement (I.body call)) whole' := by
  induction whole generalizing p with
  | ret r => exact ⟨p, .ret r, reach, .refl c p, running, .returned⟩
  | call a next ih =>
      have continues : I.Continues a (I.body call a) (I.start a) s := ⟨I.obeys call a, I.begins related a⟩
      rw [Program.implement]
      cases rest : I.body call a with
      | ret ra =>
          rw [rest] at continues
          have ends : EndsWith I.whole I.means a (I.effect (I.start a)) ra := continues.1
          rw [I.idle a] at ends
          obtain ⟨q, reach', ahead, running'⟩ := ahead_perform reach running (ends p.shared)
          obtain ⟨q', whole', reach'', ahead', running'', ready⟩ :=
            ih ra (by rw [ahead.shared]; exact related) reach' running'
          exact ⟨q', whole', reach'', ahead.trans ahead', running'', ready⟩
      | call o rest' =>
          rw [rest] at continues
          exact ⟨p, .call a next, reach, .refl c p, running, .pending continues (I.idle a)⟩

/-- Whatever a call is in the middle of, it can be brought to where its next step shows. -/
theorem catch_up {steps : Program O Res R} {whole : Program A ResA R} (follows : I.Follows call s steps whole)
    (related : I.rel s p.shared) (reach : Pool.Reachable t₀ p)
    (running : p.running c = some (call, whole)) :
    ∃ q whole', Pool.Reachable t₀ q ∧ Ahead c p q ∧ q.running c = some (call, whole') ∧
      I.Ready call s steps whole' := by
  cases follows with
  | @returned r => exact ⟨p, .ret r, reach, .refl c p, running, .returned⟩
  | @pending a next rest k continues undecided =>
      cases rest with
      | ret ra =>
          have ends : EndsWith I.whole I.means a (I.effect k) ra := continues.1
          rw [undecided] at ends
          obtain ⟨q, reach', ahead, running'⟩ := ahead_perform reach running (ends p.shared)
          obtain ⟨q', whole', reach'', ahead', running'', ready⟩ :=
            ready_implement (by rw [ahead.shared]; exact related) reach' running'
          exact ⟨q', whole', reach'', ahead.trans ahead', running'', ready⟩
      | call o rest => exact ⟨p, .call a next, reach, .refl c p, running, .pending continues undecided⟩
  | @settled a next rest k e ra continues effect meant =>
      cases rest with
      | ret ra' =>
          have ends : EndsWith I.whole I.means a (I.effect k) ra' := continues.1
          rw [effect] at ends
          obtain rfl := I.unique meant ends
          exact ready_implement related reach running
      | call o rest => exact ⟨p, next ra, reach, .refl c p, running, .settled continues effect meant⟩

end Catching

/-! ### The simulation -/

section Simulation

variable {program : C → Program A ResA R} {t₀ : τ} {c : Nat}
  {p q : Pool (operationsInSteps program I.body I.step)} {p' : Pool (wholeOperations program I.whole)}

/-- A pool of steps and one of whole operations that callers cannot tell apart. -/
structure Simulates (I : Implementation C R ResA Res τ σ K E) {program : C → Program A ResA R}
    (p : Pool (operationsInSteps program I.body I.step)) (p' : Pool (wholeOperations program I.whole)) :
    Prop where
  related : I.rel p.shared p'.shared
  seen : boundaries p'.trace = boundaries p.trace
  running : ∀ c call steps, p.running c = some (call, steps) → ∃ whole,
    p'.running c = some (call, whole) ∧ I.Follows call p.shared steps whole

/-- One call goes on, and the others are where they were. -/
theorem Simulates.goOn (sim : I.Simulates p p') {q' : Pool (wholeOperations program I.whole)}
    {entry : Option (C × Program O Res R)} (related : I.rel q.shared q'.shared)
    (seen : boundaries q'.trace = boundaries q.trace) (running : q.running = Function.update p.running c entry)
    (others : ∀ c', c' ≠ c → q'.running c' = p'.running c')
    (frame : ∀ a k, I.holds a k p.shared → I.holds a k q.shared)
    (mine : ∀ call steps, entry = some (call, steps) → ∃ whole,
      q'.running c = some (call, whole) ∧ I.Follows call q.shared steps whole) : I.Simulates q q' := by
  refine ⟨related, seen, fun c' call steps busy => ?_⟩
  rw [running] at busy
  rcases eq_or_ne c' c with rfl | ne
  · rw [Function.update_self] at busy
    exact mine call steps busy
  · rw [Function.update_of_ne ne] at busy
    obtain ⟨whole, busy', follows⟩ := sim.running c' call steps busy
    exact ⟨whole, (others c' ne).trans busy', follows.frame frame⟩

theorem Simulates.step (sim : I.Simulates p p') (reach : Pool.Reachable t₀ p')
    {event : (operationsInSteps program I.body I.step).Happening} (permitted : I.allowed p.shared event)
    (taken : Pool.Step p event q) :
    ∃ q', Pool.Reachable t₀ q' ∧ I.Simulates q q' := by
  cases taken with
  | @invoke c call fresh _ =>
      have uninvoked : ∀ call', .invoked c call' ∉ p'.trace := by
        intro call' member
        rw [← invoked_mem_boundaries, sim.seen, invoked_mem_boundaries] at member
        exact fresh _ member rfl
      have taken' : Pool.Step p' (.invoked c call) _ := .invoke (reach.fresh_of_uninvoked uninvoked) trivial
      refine ⟨_, reach.step trivial taken', sim.goOn (c := c) sim.related ?_ rfl ?_ (fun _ _ held => held) ?_⟩
      · rw [boundaries_concat, boundaries_concat, sim.seen]
        rfl
      · exact fun c' ne => Function.update_of_ne ne ..
      · intro call' steps same
        cases same
        exact ⟨_, Function.update_self .., follows_implement sim.related _⟩
  | @perform c call o next r s' busy stepped =>
      obtain ⟨whole, running, follows⟩ := sim.running c call _ busy
      obtain ⟨p₁, whole', reach₁, ahead, running₁, ready⟩ := catch_up follows sim.related reach running
      have related : I.rel p.shared p₁.shared := by
        rw [ahead.shared]
        exact sim.related
      have seen : boundaries p₁.trace = boundaries (p.trace ++ [.performed c call o r]) := by
        rw [boundaries_concat, ahead.seen, sim.seen]
        exact (List.append_nil _).symm
      cases ready with
      | @pending a next' o rest k continues undecided =>
          obtain ⟨known, frame, moved⟩ := I.steps related continues.2 continues.1.1 permitted stepped
          have left := continues.1.2 r
          rcases moved with ⟨quiet, related'⟩ | ⟨e, ra, t', -, effect, meant, stepped', related'⟩
          · refine ⟨p₁, reach₁, sim.goOn (c := c) related' seen rfl ahead.others frame ?_⟩
            intro call' steps same
            cases same
            exact ⟨_, running₁, .pending ⟨left, known⟩ (quiet.trans undecided)⟩
          · have taken' : Pool.Step p₁ (.performed c call a ra) _ := .perform running₁ stepped'
            refine ⟨_, reach₁.step trivial taken', sim.goOn (c := c) related' ?_ rfl ?_ frame ?_⟩
            · rw [← seen]
              exact (boundaries_concat _).trans (List.append_nil _)
            · exact fun c' ne => (Function.update_of_ne ne ..).trans (ahead.others c' ne)
            · intro call' steps same
              cases same
              exact ⟨_, Function.update_self .., .settled ⟨left, known⟩ effect meant⟩
      | @settled a next' o rest k e ra continues effect meant =>
          obtain ⟨known, frame, moved⟩ := I.steps related continues.2 continues.1.1 permitted stepped
          have left := continues.1.2 r
          rcases moved with ⟨quiet, related'⟩ | ⟨e', ra', t', undecided, -⟩
          · refine ⟨p₁, reach₁, sim.goOn (c := c) related' seen rfl ahead.others frame ?_⟩
            intro call' steps same
            cases same
            exact ⟨_, running₁, .settled ⟨left, known⟩ (quiet.trans effect) meant⟩
          · rw [effect] at undecided
            cases undecided
  | @finish c call result busy =>
      obtain ⟨whole, running, follows⟩ := sim.running c call _ busy
      obtain ⟨p₁, whole', reach₁, ahead, running₁, ready⟩ := catch_up follows sim.related reach running
      cases ready with
      | returned =>
          have taken' : Pool.Step p₁ (.returned c call result) _ := .finish running₁
          refine ⟨_, reach₁.step trivial taken', sim.goOn (c := c) ?_ ?_ rfl ?_ (fun _ _ held => held) ?_⟩
          · change I.rel p.shared p₁.shared
            rw [ahead.shared]
            exact sim.related
          · rw [boundaries_concat, boundaries_concat, ahead.seen, sim.seen]
            rfl
          · exact fun c' ne => (Function.update_of_ne ne ..).trans (ahead.others c' ne)
          · intro call' steps same
            cases same

/-- Callers cannot tell the steps from whole operations. -/
theorem refines {s₀ : σ} (related : I.rel s₀ t₀) (reach : Pool.ReachableBy I.allowed s₀ p) :
    ∃ p' : Pool (wholeOperations program I.whole), Pool.Reachable t₀ p' ∧ I.rel p.shared p'.shared ∧
      boundaries p'.trace = boundaries p.trace := by
  have simulated : ∃ p' : Pool (wholeOperations program I.whole), Pool.Reachable t₀ p' ∧ I.Simulates p p' := by
    induction reach with
    | start => exact ⟨Pool.initial t₀, .start, related, rfl, fun _ _ _ busy => by cases busy⟩
    | step _ permitted taken ih =>
        obtain ⟨p', reach', sim⟩ := ih
        exact sim.step reach' permitted taken
  obtain ⟨p', reach', sim⟩ := simulated
  exact ⟨p', reach', sim.related, sim.seen⟩

end Simulation
end Implementation
end Refinement
end Foundation
