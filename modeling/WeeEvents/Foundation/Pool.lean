import WeeEvents.Foundation.Program

/-!
# Pools of concurrent calls

Any number of calls, each a program, running against one shared state in any
interleaving of their operations. The pool keeps the trace of everything that
happened. The rule below is a rely-guarantee rule: each program obeys its own
discipline, what one call knows survives the operations of the others, and from
this an invariant of the shared state and the trace holds in every reachable pool.
-/
namespace Foundation

/-- One event of a run: a call begins, performs an operation, or returns. -/
inductive Event (Op : Type) (Res : Op → Type) (Call Result : Type) : Type where
  | invoked (c : Nat) (call : Call)
  | performed (c : Nat) (call : Call) (op : Op) (r : Res op)
  | returned (c : Nat) (call : Call) (result : Result)

def Event.caller {Op : Type} {Res : Op → Type} {Call Result : Type} :
    Event Op Res Call Result → Nat
  | .invoked c _ => c
  | .performed c _ _ _ => c
  | .returned c _ _ => c

/-- What stands at one place of a longer list is its last entry, or stood there before. -/
theorem split_concat {α : Type} {front before later : List α} {last x : α}
    (split : front ++ [last] = before ++ x :: later) :
    (before = front ∧ x = last) ∨ ∃ rest, later = rest ++ [last] ∧ front = before ++ x :: rest := by
  rcases List.eq_nil_or_concat later with rfl | ⟨rest, y, rfl⟩
  · obtain ⟨same, lasts⟩ := List.append_inj' split rfl
    exact .inl ⟨same.symm, (List.singleton_inj.mp lasts).symm⟩
  · rw [List.concat_eq_append, ← List.cons_append, ← List.append_assoc] at split
    obtain ⟨same, lasts⟩ := List.append_inj' split rfl
    obtain rfl := List.singleton_inj.mp lasts
    exact .inr ⟨rest, List.concat_eq_append, same⟩

/-- A shared object: the program of each call, and what its operations do. An
operation knows which call performs it. -/
structure System where
  Op : Type
  Res : Op → Type
  Shared : Type
  Call : Type
  Result : Type
  program : Call → Program Op Res Result
  step : Nat → Call → Shared → (op : Op) → Res op → Shared → Prop
  mayInvoke : List (Event Op Res Call Result) → Call → Prop := fun _ _ => True

namespace System

abbrev Happening (S : System) : Type := Event S.Op S.Res S.Call S.Result

abbrev Trace (S : System) : Type := List S.Happening

end System

structure Pool (S : System) where
  shared : S.Shared
  running : Nat → Option (S.Call × Program S.Op S.Res S.Result)
  trace : S.Trace

namespace Pool

variable {S : System} {K G : Type}

def initial (s : S.Shared) : Pool S := ⟨s, fun _ => none, []⟩

/-- No event of the trace belongs to call `c`. -/
def Fresh (c : Nat) (trace : S.Trace) : Prop := ∀ event ∈ trace, event.caller ≠ c

inductive Step : Pool S → S.Happening → Pool S → Prop
  | invoke {p : Pool S} {c : Nat} {call : S.Call} :
      Fresh c p.trace → S.mayInvoke p.trace call →
      Step p (.invoked c call)
        ⟨p.shared, Function.update p.running c (some (call, S.program call)),
          p.trace ++ [.invoked c call]⟩
  | perform {p : Pool S} {c : Nat} {call : S.Call} {op : S.Op}
      {next : S.Res op → Program S.Op S.Res S.Result} {r : S.Res op} {s' : S.Shared} :
      p.running c = some (call, .call op next) → S.step c call p.shared op r s' →
      Step p (.performed c call op r)
        ⟨s', Function.update p.running c (some (call, next r)),
          p.trace ++ [.performed c call op r]⟩
  | finish {p : Pool S} {c : Nat} {call : S.Call} {result : S.Result} :
      p.running c = some (call, .ret result) →
      Step p (.returned c call result)
        ⟨p.shared, Function.update p.running c none, p.trace ++ [.returned c call result]⟩

/-- Reachable by steps that all meet a condition on the state before the step. -/
inductive ReachableBy (allowed : S.Shared → S.Happening → Prop) (s : S.Shared) : Pool S → Prop
  | start : ReachableBy allowed s (initial s)
  | step {p q : Pool S} {event : S.Happening} :
      ReachableBy allowed s p → allowed p.shared event → Step p event q →
      ReachableBy allowed s q

def Reachable (s : S.Shared) : Pool S → Prop := ReachableBy (fun _ _ => True) s

variable {allowed : S.Shared → S.Happening → Prop} {s₀ : S.Shared} {p q : Pool S}

theorem ReachableBy.reachable (h : ReachableBy allowed s₀ p) : Reachable s₀ p := by
  induction h with
  | start => exact .start
  | step _ _ taken ih => exact ih.step trivial taken

theorem Step.trace {event : S.Happening} (h : Step p event q) : q.trace = p.trace ++ [event] := by
  cases h <;> rfl

/-- A stretch of a run: the events that lead from one pool to another. -/
inductive Stretch (p : Pool S) : List S.Happening → Pool S → Prop
  | nil : Stretch p [] p
  | snoc {q r : Pool S} {events : List S.Happening} {event : S.Happening} :
      Stretch p events q → Step q event r → Stretch p (events ++ [event]) r

theorem Stretch.reachable {events : List S.Happening} (h : Stretch p events q)
    (reach : Reachable s₀ p) : Reachable s₀ q := by
  induction h with
  | nil => exact reach
  | snoc _ taken ih => exact ih.step trivial taken

/-- What every operation of the stretch keeps holds at its end. -/
theorem Stretch.preserves {P : S.Shared → Prop} {events : List S.Happening} (h : Stretch p events q)
    (each : ∀ c call s op r s', .performed c call op r ∈ events → S.step c call s op r s' → P s → P s')
    (before : P p.shared) : P q.shared := by
  induction h with
  | nil => exact before
  | snoc _ taken ih =>
      have held := ih fun c call s op r s' member => each c call s op r s' (List.mem_append_left _ member)
      cases taken with
      | invoke => exact held
      | finish => exact held
      | perform _ stepped =>
          exact each _ _ _ _ _ _ (List.mem_append_right _ (List.mem_singleton_self _)) stepped held

/-- A running call was invoked, under that very call. -/
theorem ReachableBy.running_invoked (h : ReachableBy allowed s₀ p) {c : Nat} {call : S.Call}
    {prog : Program S.Op S.Res S.Result} (busy : p.running c = some (call, prog)) :
    .invoked c call ∈ p.trace := by
  induction h generalizing call prog with
  | start => cases busy
  | step _ _ taken ih =>
      cases taken with
      | @invoke c' call' _ _ =>
          rcases eq_or_ne c c' with rfl | ne
          · simp only [Function.update_self, Option.some.injEq, Prod.mk.injEq] at busy
            simp [busy.1]
          · simp only [Function.update_of_ne ne] at busy
            exact List.mem_append_left _ (ih busy)
      | @perform c' call' op next r s' before _ =>
          rcases eq_or_ne c c' with rfl | ne
          · simp only [Function.update_self, Option.some.injEq, Prod.mk.injEq] at busy
            obtain ⟨rfl, _⟩ := busy
            exact List.mem_append_left _ (ih before)
          · simp only [Function.update_of_ne ne] at busy
            exact List.mem_append_left _ (ih busy)
      | @finish c' call' result _ =>
          rcases eq_or_ne c c' with rfl | ne
          · simp at busy
          · simp only [Function.update_of_ne ne] at busy
            exact List.mem_append_left _ (ih busy)

/-- A running call has not returned. -/
theorem ReachableBy.running_unreturned (h : ReachableBy allowed s₀ p) {c : Nat}
    {entry : S.Call × Program S.Op S.Res S.Result} (busy : p.running c = some entry) :
    ∀ call result, .returned c call result ∉ p.trace := by
  induction h generalizing entry with
  | start => cases busy
  | @step p q event before permitted taken ih =>
      intro call result member
      rw [taken.trace] at member
      cases taken with
      | @invoke c' call' fresh _ =>
          simp only [List.mem_append, List.mem_singleton, reduceCtorEq, or_false] at member
          rcases eq_or_ne c c' with rfl | ne
          · exact fresh _ member rfl
          · simp only [Function.update_of_ne ne] at busy
            exact ih busy call result member
      | @perform c' call' op next r s' running _ =>
          simp only [List.mem_append, List.mem_singleton, reduceCtorEq, or_false] at member
          rcases eq_or_ne c c' with rfl | ne
          · exact ih running call result member
          · simp only [Function.update_of_ne ne] at busy
            exact ih busy call result member
      | @finish c' call' result' _ =>
          rcases eq_or_ne c c' with rfl | ne
          · simp at busy
          · simp only [Function.update_of_ne ne] at busy
            rcases List.mem_append.mp member with old | new
            · exact ih busy call result old
            · rw [List.mem_singleton] at new
              cases new
              exact ne rfl

/-- A call of the trace that began and has not returned. -/
def Open (c : Nat) (call : S.Call) (trace : S.Trace) : Prop :=
  .invoked c call ∈ trace ∧ ∀ call' result, .returned c call' result ∉ trace

/-- A call stays open while it performs its operations. -/
theorem Open.performed {c : Nat} {call : S.Call} {trace : S.Trace} (began : Open c call trace)
    (op : S.Op) (r : S.Res op) : Open c call (trace ++ [.performed c call op r]) := by
  refine ⟨List.mem_append_left _ began.1, fun call' result member => ?_⟩
  rcases List.mem_append.mp member with old | new
  · exact began.2 call' result old
  · simp at new

theorem ReachableBy.running_open (h : ReachableBy allowed s₀ p) {c : Nat} {call : S.Call}
    {prog : Program S.Op S.Res S.Result} (busy : p.running c = some (call, prog)) :
    Open c call p.trace :=
  ⟨h.running_invoked busy, h.running_unreturned busy⟩

/-- A call that began and has not returned is running. -/
theorem ReachableBy.open_running (h : ReachableBy allowed s₀ p) {c : Nat} {call : S.Call}
    (began : Open c call p.trace) : ∃ prog, p.running c = some (call, prog) := by
  induction h with
  | start => cases began.1
  | @step p q event before permitted taken ih =>
      have earlier : .invoked c call ∈ p.trace → ∃ prog, p.running c = some (call, prog) := by
        intro invoked
        refine ih ⟨invoked, fun call' result returned => began.2 call' result ?_⟩
        rw [taken.trace]
        exact List.mem_append_left _ returned
      have invoked := began.1
      rw [taken.trace] at invoked
      cases taken with
      | @invoke c' call' fresh _ =>
          rcases List.mem_append.mp invoked with old | new
          · obtain ⟨prog, running⟩ := earlier old
            rcases eq_or_ne c c' with rfl | ne
            · exact absurd rfl (fresh _ old)
            · exact ⟨prog, (Function.update_of_ne ne ..).trans running⟩
          · rw [List.mem_singleton] at new
            cases new
            exact ⟨_, Function.update_self ..⟩
      | @perform c' call' op next r s' running _ =>
          have old : .invoked c call ∈ p.trace := by simpa using invoked
          obtain ⟨prog, busy⟩ := earlier old
          rcases eq_or_ne c c' with rfl | ne
          · rw [running] at busy
            cases busy
            exact ⟨_, Function.update_self ..⟩
          · exact ⟨prog, (Function.update_of_ne ne ..).trans busy⟩
      | @finish c' call' result running =>
          have old : .invoked c call ∈ p.trace := by simpa using invoked
          obtain ⟨prog, busy⟩ := earlier old
          rcases eq_or_ne c c' with rfl | ne
          · exact absurd (List.mem_append_right _ (List.mem_singleton_self _)) (began.2 call' result)
          · exact ⟨prog, (Function.update_of_ne ne ..).trans busy⟩

/-- What one step must preserve: the invariant, what the call that steps knows
afterwards, and what every other call knew before. `G` is a ghost value that
only the proof sees. -/
structure Rule (D : Discipline S.Op S.Res K) (allowed : S.Shared → S.Happening → Prop) where
  inv : G → S.Shared → S.Trace → Prop
  holds : G → Nat → S.Call → K → S.Shared → S.Trace → Prop
  start : S.Call → K
  done : S.Call → K → S.Result → Prop
  obeys : ∀ call, D.Obeys (done call) (S.program call) (start call)
  invoke : ∀ {g s trace c call}, inv g s trace → Fresh c trace → S.mayInvoke trace call →
    allowed s (.invoked c call) → ∃ g', inv g' s (trace ++ [.invoked c call]) ∧
      holds g' c call (start call) s (trace ++ [.invoked c call]) ∧
      ∀ c' call' k', c' ≠ c → holds g c' call' k' s trace →
        holds g' c' call' k' s (trace ++ [.invoked c call])
  perform : ∀ {g s trace c call k op r s'}, inv g s trace → Open c call trace →
    holds g c call k s trace → D.may k op → allowed s (.performed c call op r) →
    S.step c call s op r s' → ∃ g', inv g' s' (trace ++ [.performed c call op r]) ∧
      holds g' c call (D.learn k op r) s' (trace ++ [.performed c call op r]) ∧
      ∀ c' call' k', c' ≠ c → holds g c' call' k' s trace →
        holds g' c' call' k' s' (trace ++ [.performed c call op r])
  finish : ∀ {g s trace c call k result}, inv g s trace → Open c call trace →
    holds g c call k s trace → done call k result → allowed s (.returned c call result) →
    ∃ g', inv g' s (trace ++ [.returned c call result]) ∧
      ∀ c' call' k', c' ≠ c → holds g c' call' k' s trace →
        holds g' c' call' k' s (trace ++ [.returned c call result])

/-- Every reachable pool satisfies the invariant, and every running call stands
at a point of its discipline whose knowledge is true. -/
theorem Rule.sound {D : Discipline S.Op S.Res K} (rule : Rule (G := G) D allowed) {g₀ : G}
    (init : rule.inv g₀ s₀ []) (reach : ReachableBy allowed s₀ p) :
    ∃ g, rule.inv g p.shared p.trace ∧ ∀ c call prog, p.running c = some (call, prog) →
      ∃ k, rule.holds g c call k p.shared p.trace ∧ D.Obeys (rule.done call) prog k := by
  induction reach with
  | start => exact ⟨g₀, init, fun c call prog busy => by cases busy⟩
  | @step p q event before permitted taken ih =>
      obtain ⟨g, held, knows⟩ := ih
      -- the other calls keep their programs, and what they know is framed
      have others : ∀ {g' s' trace'} (c : Nat) (entry : Option _),
          (∀ c' call' k', c' ≠ c → rule.holds g c' call' k' p.shared p.trace →
            rule.holds g' c' call' k' s' trace') →
          ∀ c' call' prog', c' ≠ c → Function.update p.running c entry c' = some (call', prog') →
            ∃ k, rule.holds g' c' call' k s' trace' ∧ D.Obeys (rule.done call') prog' k := by
        intro g' s' trace' c entry frame c' call' prog' ne busy
        rw [Function.update_of_ne ne] at busy
        obtain ⟨k, known, obeys⟩ := knows c' call' prog' busy
        exact ⟨k, frame c' call' k ne known, obeys⟩
      cases taken with
      | @invoke c call fresh may =>
          obtain ⟨g', held', known, frame⟩ := rule.invoke held fresh may permitted
          refine ⟨g', held', fun c' call' prog' busy => ?_⟩
          rcases eq_or_ne c' c with rfl | ne
          · simp only [Function.update_self, Option.some.injEq, Prod.mk.injEq] at busy
            obtain ⟨rfl, rfl⟩ := busy
            exact ⟨rule.start call, known, rule.obeys call⟩
          · exact others c _ frame c' call' prog' ne busy
      | @perform c call op next r s' running stepped =>
          obtain ⟨k, known, allowed_op, obeys⟩ := knows c call _ running
          obtain ⟨g', held', learned, frame⟩ :=
            rule.perform held (before.running_open running) known allowed_op permitted stepped
          refine ⟨g', held', fun c' call' prog' busy => ?_⟩
          rcases eq_or_ne c' c with rfl | ne
          · simp only [Function.update_self, Option.some.injEq, Prod.mk.injEq] at busy
            obtain ⟨rfl, rfl⟩ := busy
            exact ⟨_, learned, obeys r⟩
          · exact others c _ frame c' call' prog' ne busy
      | @finish c call result running =>
          obtain ⟨k, known, ended⟩ := knows c call _ running
          obtain ⟨g', held', frame⟩ :=
            rule.finish held (before.running_open running) known ended permitted
          refine ⟨g', held', fun c' call' prog' busy => ?_⟩
          rcases eq_or_ne c' c with rfl | ne
          · simp at busy
          · exact others c _ frame c' call' prog' ne busy

/-- A second invariant over one that is already known: its obligations may use
the first invariant, and what the calls know by it. -/
structure Rule.Layer {D : Discipline S.Op S.Res K} (rule : Rule (G := G) D allowed) (H : Type) where
  inv : H → S.Shared → S.Trace → Prop
  holds : H → Nat → S.Call → K → S.Shared → S.Trace → Prop
  invoke : ∀ {g h s trace c call}, rule.inv g s trace → inv h s trace → Fresh c trace →
    S.mayInvoke trace call → ∃ h', inv h' s (trace ++ [.invoked c call]) ∧
      holds h' c call (rule.start call) s (trace ++ [.invoked c call]) ∧
      ∀ c' call' k', c' ≠ c → rule.holds g c' call' k' s trace → holds h c' call' k' s trace →
        holds h' c' call' k' s (trace ++ [.invoked c call])
  perform : ∀ {g h s trace c call k op r s'}, rule.inv g s trace → inv h s trace →
    Open c call trace → rule.holds g c call k s trace → holds h c call k s trace → D.may k op →
    allowed s (.performed c call op r) → S.step c call s op r s' →
    ∃ h', inv h' s' (trace ++ [.performed c call op r]) ∧
      holds h' c call (D.learn k op r) s' (trace ++ [.performed c call op r]) ∧
      ∀ c' call' k', c' ≠ c → rule.holds g c' call' k' s trace → holds h c' call' k' s trace →
        holds h' c' call' k' s' (trace ++ [.performed c call op r])
  finish : ∀ {g h s trace c call k result}, rule.inv g s trace → inv h s trace →
    Open c call trace → rule.holds g c call k s trace → holds h c call k s trace →
    rule.done call k result → ∃ h', inv h' s (trace ++ [.returned c call result]) ∧
      ∀ c' call' k', c' ≠ c → rule.holds g c' call' k' s trace → holds h c' call' k' s trace →
        holds h' c' call' k' s (trace ++ [.returned c call result])

/-- Both invariants together. -/
def Rule.extend {D : Discipline S.Op S.Res K} {H : Type} (rule : Rule (G := G) D allowed)
    (layer : rule.Layer H) : Rule (G := G × H) D allowed where
  inv g s trace := rule.inv g.1 s trace ∧ layer.inv g.2 s trace
  holds g c call k s trace := rule.holds g.1 c call k s trace ∧ layer.holds g.2 c call k s trace
  start := rule.start
  done := rule.done
  obeys := rule.obeys
  invoke {g s trace c call} held fresh may permitted := by
    obtain ⟨g₁, held₁, known₁, frame₁⟩ := rule.invoke held.1 fresh may permitted
    obtain ⟨g₂, held₂, known₂, frame₂⟩ := layer.invoke held.1 held.2 fresh may
    refine ⟨(g₁, g₂), ⟨held₁, held₂⟩, ⟨known₁, known₂⟩, fun c' call' k' ne before => ?_⟩
    exact ⟨frame₁ c' call' k' ne before.1, frame₂ c' call' k' ne before.1 before.2⟩
  perform {g s trace c call k op r s'} held began known may permitted step := by
    obtain ⟨g₁, held₁, known₁, frame₁⟩ := rule.perform held.1 began known.1 may permitted step
    obtain ⟨g₂, held₂, known₂, frame₂⟩ :=
      layer.perform held.1 held.2 began known.1 known.2 may permitted step
    refine ⟨(g₁, g₂), ⟨held₁, held₂⟩, ⟨known₁, known₂⟩, fun c' call' k' ne before => ?_⟩
    exact ⟨frame₁ c' call' k' ne before.1, frame₂ c' call' k' ne before.1 before.2⟩
  finish {g s trace c call k result} held began known ended permitted := by
    obtain ⟨g₁, held₁, frame₁⟩ := rule.finish held.1 began known.1 ended permitted
    obtain ⟨g₂, held₂, frame₂⟩ := layer.finish held.1 held.2 began known.1 known.2 ended
    refine ⟨(g₁, g₂), ⟨held₁, held₂⟩, fun c' call' k' ne before => ?_⟩
    exact ⟨frame₁ c' call' k' ne before.1, frame₂ c' call' k' ne before.1 before.2⟩

/-- An invariant of the shared state and the trace that every single event keeps. -/
theorem ReachableBy.invariant (inv : S.Shared → S.Trace → Prop) (reach : ReachableBy allowed s₀ p)
    (init : inv s₀ [])
    (perform : ∀ {s trace c call op r s'}, inv s trace → allowed s (.performed c call op r) →
      S.step c call s op r s' → inv s' (trace ++ [.performed c call op r]))
    (invoke : ∀ {s trace c call}, inv s trace → S.mayInvoke trace call →
      inv s (trace ++ [.invoked c call]))
    (finish : ∀ {s trace c call result}, inv s trace → inv s (trace ++ [.returned c call result])) :
    inv p.shared p.trace := by
  induction reach with
  | start => exact init
  | step _ permitted taken ih =>
      cases taken with
      | invoke _ may => exact invoke ih may
      | perform _ stepped => exact perform ih permitted stepped
      | finish _ => exact finish ih

/-- A call that began was allowed to begin by what had happened before it. -/
theorem ReachableBy.invoked_may (h : ReachableBy allowed s₀ p) {c : Nat} {call : S.Call}
    (invoked : .invoked c call ∈ p.trace) : ∃ before, before <+: p.trace ∧ S.mayInvoke before call := by
  induction h with
  | start => cases invoked
  | @step p q event _ _ taken ih =>
      rw [taken.trace] at invoked ⊢
      rcases List.mem_append.mp invoked with old | new
      · obtain ⟨before, earlier, may⟩ := ih old
        exact ⟨before, earlier.trans (List.prefix_append _ _), may⟩
      · rw [List.mem_singleton] at new
        subst new
        cases taken with
        | invoke _ may => exact ⟨p.trace, List.prefix_append _ _, may⟩

/-- A call begins once. -/
theorem ReachableBy.invoked_unique (h : ReachableBy allowed s₀ p) {c : Nat} {call call' : S.Call}
    (invoked : .invoked c call ∈ p.trace) (again : .invoked c call' ∈ p.trace) : call = call' := by
  induction h with
  | start => cases invoked
  | @step p q event _ _ taken ih =>
      rw [taken.trace] at invoked again
      rcases List.mem_append.mp invoked with old | new
      · rcases List.mem_append.mp again with old' | new'
        · exact ih old old'
        · rw [List.mem_singleton] at new'
          subst new'
          cases taken with
          | invoke fresh _ => exact absurd rfl (fresh _ old)
      · rw [List.mem_singleton] at new
        subst new
        cases taken with
        | invoke fresh _ =>
            rcases List.mem_append.mp again with old' | new'
            · exact absurd rfl (fresh _ old')
            · cases List.mem_singleton.mp new'
              rfl

/-- A call that returned had begun. -/
theorem ReachableBy.returned_invoked (h : ReachableBy allowed s₀ p) {c : Nat} {call : S.Call}
    {result : S.Result} (returned : .returned c call result ∈ p.trace) :
    .invoked c call ∈ p.trace := by
  induction h with
  | start => cases returned
  | @step p q event before _ taken ih =>
      rw [taken.trace] at returned ⊢
      rcases List.mem_append.mp returned with old | new
      · exact List.mem_append_left _ (ih old)
      · rw [List.mem_singleton] at new
        subst new
        cases taken with
        | finish running => exact List.mem_append_left _ (before.running_invoked running)

/-- A call that performed an operation had begun. -/
theorem ReachableBy.performed_invoked (h : ReachableBy allowed s₀ p) {c : Nat} {call : S.Call} {op : S.Op}
    {r : S.Res op} (performed : .performed c call op r ∈ p.trace) : .invoked c call ∈ p.trace := by
  induction h with
  | start => cases performed
  | @step p q event before _ taken ih =>
      rw [taken.trace] at performed ⊢
      rcases List.mem_append.mp performed with old | new
      · exact List.mem_append_left _ (ih old)
      · rw [List.mem_singleton] at new
        subst new
        cases taken with
        | perform running _ => exact List.mem_append_left _ (before.running_invoked running)

/-- A call that has not begun is not in the trace at all. -/
theorem ReachableBy.fresh_of_uninvoked (h : ReachableBy allowed s₀ p) {c : Nat}
    (uninvoked : ∀ call, .invoked c call ∉ p.trace) : Fresh c p.trace := by
  rintro event member rfl
  cases event with
  | invoked c call => exact uninvoked call member
  | performed c call op r => exact uninvoked call (h.performed_invoked member)
  | returned c call result => exact uninvoked call (h.returned_invoked member)

/-! ### One call among the others -/

/-- The own steps of call `c` in a run, each taken from a state the run reached. -/
def OwnSteps (allowed : S.Shared → S.Happening → Prop) (s₀ : S.Shared) (c : Nat) (call : S.Call)
    (trace : S.Trace) (steps : List (OwnStep S.Shared S.Op S.Res)) : Prop :=
  ∀ step ∈ steps, S.step c call step.before step.op step.response step.after ∧
    allowed step.before (.performed c call step.op step.response) ∧
    ∃ p : Pool S, ReachableBy allowed s₀ p ∧ p.shared = step.before ∧
      p.trace ++ [.performed c call step.op step.response] <+: trace

theorem OwnSteps.extend {c : Nat} {call : S.Call} {trace later : S.Trace}
    {steps : List (OwnStep S.Shared S.Op S.Res)} (h : OwnSteps allowed s₀ c call trace steps) :
    OwnSteps allowed s₀ c call (trace ++ later) steps := by
  intro step member
  obtain ⟨stepped, permitted, p, reach, shared, before⟩ := h step member
  exact ⟨stepped, permitted, p, reach, shared, before.trans (List.prefix_append _ _)⟩

/-- A running call has performed its own steps, and what it still does continues them. -/
theorem ReachableBy.running_performs (h : ReachableBy allowed s₀ p) {c : Nat} {call : S.Call}
    {prog : Program S.Op S.Res S.Result} (busy : p.running c = some (call, prog)) :
    ∃ steps, OwnSteps allowed s₀ c call p.trace steps ∧ ∀ later a,
      prog.Performs (S.step c call) later a →
        (S.program call).Performs (S.step c call) (steps ++ later) a := by
  induction h generalizing call prog with
  | start => cases busy
  | @step p q event before permitted taken ih =>
      cases taken with
      | @invoke c' call' _ _ =>
          rcases eq_or_ne c c' with rfl | ne
          · simp only [Function.update_self, Option.some.injEq, Prod.mk.injEq] at busy
            obtain ⟨rfl, rfl⟩ := busy
            exact ⟨[], (fun step member => by cases member), fun later a run => run⟩
          · simp only [Function.update_of_ne ne] at busy
            obtain ⟨steps, own, continues⟩ := ih busy
            exact ⟨steps, own.extend, continues⟩
      | @perform c' call' op next r s' running stepped =>
          rcases eq_or_ne c c' with rfl | ne
          · simp only [Function.update_self, Option.some.injEq, Prod.mk.injEq] at busy
            obtain ⟨rfl, rfl⟩ := busy
            obtain ⟨steps, own, continues⟩ := ih running
            refine ⟨steps ++ [⟨p.shared, op, r, s'⟩], fun step member => ?_, fun later a run => ?_⟩
            · rcases List.mem_append.mp member with old | new
              · exact own.extend step old
              · rw [List.mem_singleton.mp new]
                exact ⟨stepped, permitted, p, before, rfl, List.prefix_refl _⟩
            · rw [List.append_assoc]
              exact continues _ a (.call stepped run)
          · simp only [Function.update_of_ne ne] at busy
            obtain ⟨steps, own, continues⟩ := ih busy
            exact ⟨steps, own.extend, continues⟩
      | @finish c' call' result _ =>
          rcases eq_or_ne c c' with rfl | ne
          · simp at busy
          · simp only [Function.update_of_ne ne] at busy
            obtain ⟨steps, own, continues⟩ := ih busy
            exact ⟨steps, own.extend, continues⟩

/-- A call that returned performed its program, whatever others did in between. -/
theorem ReachableBy.returned_performs (h : ReachableBy allowed s₀ p) {c : Nat} {call : S.Call}
    {result : S.Result} (returned : .returned c call result ∈ p.trace) :
    ∃ steps, OwnSteps allowed s₀ c call p.trace steps ∧
      (S.program call).Performs (S.step c call) steps result := by
  induction h with
  | start => cases returned
  | @step p q event before permitted taken ih =>
      rw [taken.trace] at returned ⊢
      rcases List.mem_append.mp returned with old | new
      · obtain ⟨steps, own, run⟩ := ih old
        exact ⟨steps, own.extend, run⟩
      · rw [List.mem_singleton] at new
        subst new
        cases taken with
        | finish running =>
            obtain ⟨steps, own, continues⟩ := before.running_performs running
            refine ⟨steps, own.extend, ?_⟩
            have run := continues [] result .ret
            rwa [List.append_nil] at run

/-! ### Calls that run alone -/

/-- The condition of a restricted run says nothing about calls beginning and ending. -/
def OnlyOperations (allowed : S.Shared → S.Happening → Prop) : Prop :=
  ∀ s c call, allowed s (.invoked c call) ∧ ∀ result, allowed s (.returned c call result)

/-- The operations of one call that a restricted run permits. -/
def PermittedStep (allowed : S.Shared → S.Happening → Prop) (c : Nat) (call : S.Call) (s : S.Shared)
    (op : S.Op) (r : S.Res op) (s' : S.Shared) : Prop :=
  S.step c call s op r s' ∧ allowed s (.performed c call op r)

theorem ReachableBy.solo_steps (only : OnlyOperations allowed) {c : Nat} {call : S.Call}
    {s s' : S.Shared} {prog : Program S.Op S.Res S.Result} {a : S.Result}
    (run : Program.Runs (PermittedStep allowed c call) s prog a s') {p : Pool S}
    (h : ReachableBy allowed s₀ p) (shared : p.shared = s)
    (running : p.running c = some (call, prog)) :
    ∃ q middle, ReachableBy allowed s₀ q ∧ q.shared = s' ∧
      q.running = Function.update p.running c none ∧
      q.trace = p.trace ++ middle ++ [.returned c call a] ∧
      ∀ event ∈ middle, ∃ op r, event = .performed c call op r := by
  induction run generalizing p with
  | ret =>
      exact ⟨_, [], h.step ((only _ c call).2 _) (.finish running), shared, rfl, by simp, by simp⟩
  | @call s s₁ s' op next r a first _ ih =>
      subst shared
      have after := h.step first.2 (.perform running first.1)
      obtain ⟨q, middle, reach, final, others, trace, mine⟩ :=
        ih after rfl (Function.update_self ..)
      refine ⟨q, .performed c call op r :: middle, reach, final, ?_, ?_, ?_⟩
      · rw [others, Function.update_idem]
      · rw [trace]
        simp
      · intro event member
        rcases List.mem_cons.mp member with rfl | later
        · exact ⟨op, r, rfl⟩
        · exact mine event later

/-- From a reachable pool, a fresh call may run to its end with nobody between. -/
theorem ReachableBy.solo (only : OnlyOperations allowed) {c : Nat} {call : S.Call} {s' : S.Shared}
    {a : S.Result} {p : Pool S} (h : ReachableBy allowed s₀ p) (fresh : Fresh c p.trace)
    (may : S.mayInvoke p.trace call)
    (run : Program.Runs (PermittedStep allowed c call) p.shared (S.program call) a s') :
    ∃ q, ReachableBy allowed s₀ q ∧ q.shared = s' ∧ q.running = Function.update p.running c none ∧
      p.trace <+: q.trace ∧ .returned c call a ∈ q.trace ∧
      ∀ c', c' ≠ c → Fresh c' p.trace → Fresh c' q.trace := by
  have begun := h.step (only _ c call).1 (Step.invoke fresh may)
  obtain ⟨q, middle, reach, final, others, trace, mine⟩ :=
    begun.solo_steps only run rfl (Function.update_self ..)
  refine ⟨q, reach, final, ?_, ?_, ?_, ?_⟩
  · rw [others, Function.update_idem]
  · rw [trace, List.append_assoc, List.append_assoc]
    exact List.prefix_append _ _
  · simp [trace]
  · intro c' ne freshBefore event member
    rw [trace] at member
    simp only [List.mem_append, List.mem_singleton] at member
    rcases member with ((old | rfl) | own) | rfl
    · exact freshBefore event old
    · exact ne.symm
    · obtain ⟨op, r, rfl⟩ := mine event own
      exact ne.symm
    · exact ne.symm

/-- A running call that a handler serves alone performs just the operations of its run. -/
theorem ReachableBy.solo_log
    {handle : Nat → S.Call → (op : S.Op) → S.Shared → Option (S.Res op × S.Shared)}
    (only : OnlyOperations allowed) (served : ∀ c call s op r s', handle c call op s = some (r, s') →
      PermittedStep allowed c call s op r s') {c : Nat} {call : S.Call}
    {prog : Program S.Op S.Res S.Result} {a : S.Result} {s' : S.Shared} {p : Pool S}
    (h : ReachableBy allowed s₀ p) (running : p.running c = some (call, prog))
    (run : prog.eval (handle c call) p.shared = some (a, s')) :
    ∃ q, ReachableBy allowed s₀ q ∧ q.shared = s' ∧
      q.running = Function.update p.running c none ∧
      q.trace = p.trace ++ (prog.log (handle c call) p.shared).map
        (fun entry => .performed c call entry.1 entry.2) ++ [.returned c call a] := by
  induction prog generalizing p with
  | ret b =>
      cases run
      refine ⟨_, h.step ((only _ c call).2 _) (.finish running), rfl, rfl, ?_⟩
      simp [Program.log]
  | call op next ih =>
      cases answer : handle c call op p.shared with
      | none => simp [Program.eval, answer] at run
      | some answered =>
          obtain ⟨r, s₁⟩ := answered
          rw [Program.eval_call answer] at run
          have step := served c call _ op r s₁ answer
          have after := h.step step.2 (.perform running step.1)
          obtain ⟨q, reach, final, others, trace⟩ := ih r after (Function.update_self ..) run
          refine ⟨q, reach, final, ?_, ?_⟩
          · rw [others, Function.update_idem]
          · rw [trace, Program.log_call answer]
            simp

/-! ### Replaying a schedule -/

section Replay

/-- A choice of the scheduler: a call begins, or a running call goes on. -/
inductive Move (S : System) where
  | begin (c : Nat) (call : S.Call)
  | advance (c : Nat)

variable (handle : Nat → S.Call → (op : S.Op) → S.Shared → Option (S.Res op × S.Shared))

/-- The pool after one move, its operation answered by the handler. A running
call that has its result returns. -/
def Move.take : Move S → Pool S → Option (Pool S)
  | begin c call, p =>
      if p.trace.all (fun event => event.caller != c) then
        some ⟨p.shared, Function.update p.running c (some (call, S.program call)),
          p.trace ++ [.invoked c call]⟩
      else none
  | advance c, p =>
      match p.running c with
      | none => none
      | some (call, .ret result) =>
          some ⟨p.shared, Function.update p.running c none, p.trace ++ [.returned c call result]⟩
      | some (call, .call op next) =>
          match handle c call op p.shared with
          | none => none
          | some (r, s') =>
              some ⟨s', Function.update p.running c (some (call, next r)),
                p.trace ++ [.performed c call op r]⟩

def replay : List (Move S) → Pool S → Option (Pool S)
  | [], p => some p
  | move :: moves, p =>
      match move.take handle p with
      | none => none
      | some q => replay moves q

variable {handle}

theorem Move.take_step (anyone : ∀ trace call, S.mayInvoke trace call)
    (served : ∀ c call s op r s', handle c call op s = some (r, s') →
      PermittedStep allowed c call s op r s')
    (only : OnlyOperations allowed) {move : Move S} (taken : move.take handle p = some q) :
    ∃ event, allowed p.shared event ∧ Step p event q := by
  cases move with
  | begin c call =>
      rw [Move.take] at taken
      split at taken
      · next fresh =>
          cases taken
          have isFresh : Fresh c p.trace := by
            intro event member
            have different := List.all_eq_true.mp fresh event member
            simpa using different
          exact ⟨_, (only _ c call).1, .invoke isFresh (anyone _ _)⟩
      · cases taken
  | advance c =>
      rw [Move.take] at taken
      split at taken
      · cases taken
      · next call result running =>
          cases taken
          exact ⟨_, (only _ c call).2 result, .finish running⟩
      · next call op next running =>
          split at taken
          · cases taken
          · next r s' answer =>
              cases taken
              have step := served c call _ op r s' answer
              exact ⟨_, step.2, .perform running step.1⟩

/-- A replayed schedule is a run. -/
theorem ReachableBy.replay (anyone : ∀ trace call, S.mayInvoke trace call)
    (served : ∀ c call s op r s', handle c call op s = some (r, s') →
      PermittedStep allowed c call s op r s')
    (only : OnlyOperations allowed) {moves : List (Move S)} (h : ReachableBy allowed s₀ p)
    (run : Pool.replay handle moves p = some q) : ReachableBy allowed s₀ q := by
  induction moves generalizing p with
  | nil =>
      cases run
      exact h
  | cons move moves ih =>
      rw [Pool.replay] at run
      split at run
      · cases run
      · next next taken =>
          obtain ⟨event, permitted, step⟩ := Move.take_step anyone served only taken
          exact ih (h.step permitted step) run

end Replay

/-! ### Calls that run one after the other -/

section Sequence

variable (handle : Nat → S.Call → (op : S.Op) → S.Shared → Option (S.Res op × S.Shared))

/-- The results of calls, numbered from `c` on, that run alone in this order. -/
def runInOrder : Nat → List S.Call → S.Shared → Option (List S.Result × S.Shared)
  | _, [], s => some ([], s)
  | c, call :: calls, s =>
      match (S.program call).eval (handle c call) s with
      | none => none
      | some (a, s) =>
          match runInOrder (c + 1) calls s with
          | none => none
          | some (results, s) => some (a :: results, s)

variable {handle}

/-- Calls that run in order reach a pool where each has returned its result. -/
theorem ReachableBy.runInOrder (only : OnlyOperations allowed)
    (served : ∀ c call s op r s', handle c call op s = some (r, s') →
      PermittedStep allowed c call s op r s')
    {calls : List S.Call} {c : Nat} {results : List S.Result} {p : Pool S} {s' : S.Shared}
    (may : ∀ trace, p.trace <+: trace → ∀ call ∈ calls, S.mayInvoke trace call)
    (h : ReachableBy allowed s₀ p) (fresh : ∀ c', c ≤ c' → Fresh c' p.trace)
    (run : Pool.runInOrder handle c calls p.shared = some (results, s')) :
    ∃ q, ReachableBy allowed s₀ q ∧ q.shared = s' ∧ p.trace <+: q.trace ∧
      (∀ c', p.running c' = none → q.running c' = none) ∧ ∀ i call a,
        calls[i]? = some call → results[i]? = some a → .returned (c + i) call a ∈ q.trace := by
  induction calls generalizing c p results with
  | nil =>
      cases run
      exact ⟨p, h, rfl, List.prefix_refl _, fun _ idle => idle, by simp⟩
  | cons call calls ih =>
      rw [Pool.runInOrder] at run
      split at run
      · cases run
      · next a s₁ first =>
          split at run
          · cases run
          · next rest s₂ later =>
              cases run
              obtain ⟨q, reach, shared, running, grown, returned, others⟩ :=
                h.solo only (fresh c le_rfl) (may _ (List.prefix_refl _) call (List.mem_cons_self ..))
                  ((Program.runs_iff_eval.mpr first).mono (served c call))
              subst shared
              obtain ⟨q', reach', final, grown', idle, each⟩ := ih
                (fun trace further call' member => may trace (grown.trans further) call'
                  (List.mem_cons_of_mem _ member)) reach
                (fun c' le => others c' (by omega) (fresh c' (by omega))) later
              refine ⟨q', reach', final, grown.trans grown', ?_, fun i call' a' isCall isResult => ?_⟩
              · intro c' notRunning
                refine idle c' ?_
                rw [running]
                by_cases same : c' = c
                · rw [same, Function.update_self]
                · rw [Function.update_of_ne same, notRunning]
              cases i with
              | zero =>
                  cases isCall
                  cases isResult
                  exact grown'.subset returned
              | succ i =>
                  rw [show c + (i + 1) = c + 1 + i by omega]
                  exact each i call' a' isCall isResult

end Sequence
end Pool
end Foundation
