import Mathlib

/-!
# Programs over operations

A program is a finite tree of calls to named operations and continuations on
their responses. The same program runs against many worlds: alone, against a
deterministic handler, or a step at a time between the steps of others.

What is proved once about the program itself is a discipline: what it may call
at each point, given what it has learned from the responses so far, and what
its result then says. The discipline holds for every world.
-/
namespace Foundation

inductive Program (Op : Type) (Res : Op → Type) (α : Type) : Type where
  | ret (a : α) : Program Op Res α
  | call (op : Op) (next : Res op → Program Op Res α) : Program Op Res α

namespace Program

variable {Op : Type} {Res : Op → Type} {α β γ ε : Type}

def bind : Program Op Res α → (α → Program Op Res β) → Program Op Res β
  | .ret a, f => f a
  | .call op next, f => .call op fun r => (next r).bind f

instance : Monad (Program Op Res) where
  pure := .ret
  bind := bind

/-- Call one operation and return its response. -/
def perform (op : Op) : Program Op Res (Res op) := .call op .ret

/-- Continue with the value of a fallible program, return its error. -/
def andThen (p : Program Op Res (Except ε α)) (f : α → Program Op Res (Except ε β)) :
    Program Op Res (Except ε β) :=
  p.bind fun
    | .ok a => f a
    | .error e => .ret (.error e)

@[simp] theorem pure_eq (a : α) : (pure a : Program Op Res α) = .ret a := rfl

@[simp] theorem bind_eq (p : Program Op Res α) (f : α → Program Op Res β) :
    p >>= f = p.bind f := rfl

@[simp] theorem bind_ret (a : α) (f : α → Program Op Res β) : (ret a).bind f = f a := rfl

@[simp] theorem bind_call (op : Op) (next : Res op → Program Op Res α)
    (f : α → Program Op Res β) :
    (call op next).bind f = call op fun r => (next r).bind f := rfl

@[simp] theorem perform_bind (op : Op) (f : Res op → Program Op Res β) :
    (perform op).bind f = call op f := rfl

@[simp] theorem andThen_ok (a : α) (f : α → Program Op Res (Except ε β)) :
    (ret (.ok a)).andThen f = f a := rfl

@[simp] theorem andThen_error (e : ε) (f : α → Program Op Res (Except ε β)) :
    (ret (.error e)).andThen f = ret (.error e) := rfl

theorem bind_assoc (p : Program Op Res α) (f : α → Program Op Res β) (g : β → Program Op Res γ) :
    (p.bind f).bind g = p.bind fun a => (f a).bind g := by
  induction p with
  | ret a => rfl
  | call op next ih =>
      rw [bind_call, bind_call, bind_call]
      congr 1
      funext r
      exact ih r

theorem bind_congr {p : Program Op Res α} {f g : α → Program Op Res β} (same : ∀ a, f a = g a) :
    p.bind f = p.bind g := by
  rw [funext same]

/-- The program with its operations named among those of a larger set. -/
def lift {Op' : Type} {Res' : Op' → Type} (inject : Op → Op')
    (project : (op : Op) → Res' (inject op) → Res op) : Program Op Res α → Program Op' Res' α
  | .ret a => .ret a
  | .call op next => .call (inject op) fun r => (next (project op r)).lift inject project

/-! ### Running against a world -/

variable {σ K : Type}

/-- A complete run of a program, one operation at a time. The step relation may
let the world change on its own before it answers. -/
inductive Runs (step : σ → (op : Op) → Res op → σ → Prop) : σ → Program Op Res α → α → σ → Prop
  | ret {s : σ} {a : α} : Runs step s (.ret a) a s
  | call {s s₁ s' : σ} {op : Op} {next : Res op → Program Op Res α} {r : Res op} {a : α} :
      step s op r s₁ → Runs step s₁ (next r) a s' → Runs step s (.call op next) a s'

theorem Runs.mono {step step' : σ → (op : Op) → Res op → σ → Prop} {s s' : σ}
    {p : Program Op Res α} {a : α} (run : Runs step s p a s')
    (weaker : ∀ s op r s', step s op r s' → step' s op r s') : Runs step' s p a s' := by
  induction run with
  | ret => exact .ret
  | call first _ ih => exact .call (weaker _ _ _ _ first) ih

theorem runs_ret {step : σ → (op : Op) → Res op → σ → Prop} {s s' : σ} {a b : α} :
    Runs step s (.ret a) b s' ↔ b = a ∧ s' = s := by
  constructor
  · intro run
    cases run
    exact ⟨rfl, rfl⟩
  · rintro ⟨rfl, rfl⟩
    exact .ret

theorem runs_perform {step : σ → (op : Op) → Res op → σ → Prop} {s s' : σ} {op : Op} {r : Res op} :
    Runs step s (perform op) r s' ↔ step s op r s' := by
  constructor
  · intro run
    cases run with
    | call first rest =>
        cases rest
        exact first
  · intro first
    exact .call first .ret

theorem Runs.of_call {step : σ → (op : Op) → Res op → σ → Prop} {s s' : σ} {op : Op}
    {next : Res op → Program Op Res α} {a : α} (run : Runs step s (.call op next) a s') :
    ∃ r s₁, step s op r s₁ ∧ Runs step s₁ (next r) a s' := by
  cases run with
  | call first rest => exact ⟨_, _, first, rest⟩

theorem Runs.of_bind {step : σ → (op : Op) → Res op → σ → Prop} {p : Program Op Res α}
    {f : α → Program Op Res β} {s s' : σ} {b : β} (run : Runs step s (p.bind f) b s') :
    ∃ a s₁, Runs step s p a s₁ ∧ Runs step s₁ (f a) b s' := by
  induction p generalizing s with
  | ret a => exact ⟨a, s, .ret, run⟩
  | call op next ih =>
      cases run with
      | call first rest =>
          obtain ⟨a, s₁, before, after⟩ := ih _ rest
          exact ⟨a, s₁, .call first before, after⟩

theorem Runs.of_andThen {step : σ → (op : Op) → Res op → σ → Prop} {p : Program Op Res (Except ε α)}
    {f : α → Program Op Res (Except ε β)} {s s' : σ} {r : Except ε β}
    (run : Runs step s (p.andThen f) r s') :
    (∃ e, r = .error e ∧ Runs step s p (.error e) s') ∨
      ∃ a s₁, Runs step s p (.ok a) s₁ ∧ Runs step s₁ (f a) r s' := by
  obtain ⟨first, s₁, before, after⟩ := run.of_bind
  cases first with
  | ok a => exact .inr ⟨a, s₁, before, after⟩
  | error e =>
      cases after
      exact .inl ⟨e, rfl, before⟩

/-- The program with each of its operations carried out by a program of other operations. -/
def implement {Op' : Type} {Res' : Op' → Type} (body : (op : Op) → Program Op' Res' (Res op)) :
    Program Op Res α → Program Op' Res' α
  | .ret a => .ret a
  | .call op next => (body op).bind fun r => (next r).implement body

/-- Where every operation's body refines the operation, every program's does. -/
theorem Runs.of_implement {Op' τ : Type} {Res' : Op' → Type}
    {body : (op : Op) → Program Op' Res' (Res op)} {step : σ → (op : Op) → Res op → σ → Prop}
    {step' : τ → (op : Op') → Res' op → τ → Prop} {related : τ → σ → Prop}
    (refines : ∀ t s op r t', related t s → Runs step' t (body op) r t' →
      ∃ s', related t' s' ∧ step s op r s')
    {p : Program Op Res α} {t t' : τ} {s : σ} {a : α} (start : related t s)
    (run : Runs step' t (p.implement body) a t') : ∃ s', related t' s' ∧ Runs step s p a s' := by
  induction p generalizing t s with
  | ret b =>
      cases run
      exact ⟨s, start, .ret⟩
  | call op next ih =>
      obtain ⟨r, t₁, first, rest⟩ := run.of_bind
      obtain ⟨s₁, middle, stepped⟩ := refines t s op r t₁ start first
      obtain ⟨s', final, later⟩ := ih r middle rest
      exact ⟨s', final, .call stepped later⟩

/-- The run against a deterministic handler. An operation it does not answer
blocks, or panics: then there is no run. -/
def eval (handle : (op : Op) → σ → Option (Res op × σ)) : Program Op Res α → σ → Option (α × σ)
  | .ret a, s => some (a, s)
  | .call op next, s =>
      match handle op s with
      | none => none
      | some (r, s) => (next r).eval handle s

/-- The operations of that run, each with its response. -/
def log (handle : (op : Op) → σ → Option (Res op × σ)) :
    Program Op Res α → σ → List ((op : Op) × Res op)
  | .ret _, _ => []
  | .call op next, s =>
      match handle op s with
      | none => []
      | some (r, s) => ⟨op, r⟩ :: (next r).log handle s

variable {handle : (op : Op) → σ → Option (Res op × σ)}

theorem log_call {op : Op} {next : Res op → Program Op Res α} {s s' : σ} {r : Res op}
    (answer : handle op s = some (r, s')) :
    (call op next).log handle s = ⟨op, r⟩ :: (next r).log handle s' := by
  simp only [log, answer]

@[simp] theorem eval_ret (a : α) (s : σ) :
    (ret a : Program Op Res α).eval handle s = some (a, s) := rfl

theorem eval_call {op : Op} {next : Res op → Program Op Res α} {s s' : σ} {r : Res op}
    (answer : handle op s = some (r, s')) :
    (call op next).eval handle s = (next r).eval handle s' := by
  simp only [eval, answer]

theorem eval_bind {p : Program Op Res α} {f : α → Program Op Res β} {s s' : σ} {a : α}
    (first : p.eval handle s = some (a, s')) :
    (p.bind f).eval handle s = (f a).eval handle s' := by
  induction p generalizing s with
  | ret b =>
      cases first
      rfl
  | call op next ih =>
      cases answer : handle op s with
      | none => simp [eval, answer] at first
      | some answered =>
          rw [eval_call answer] at first
          rw [bind_call, eval_call answer]
          exact ih _ first

theorem eval_andThen {p : Program Op Res (Except ε α)} {f : α → Program Op Res (Except ε β)} {s s' : σ}
    {a : α} (first : p.eval handle s = some (.ok a, s')) :
    (p.andThen f).eval handle s = (f a).eval handle s' :=
  eval_bind first

/-- The handler's run is a run, and the only one. -/
theorem runs_iff_eval {p : Program Op Res α} {s s' : σ} {a : α} :
    Runs (fun s op r s' => handle op s = some (r, s')) s p a s' ↔ p.eval handle s = some (a, s') := by
  constructor
  · intro run
    induction run with
    | ret => rfl
    | call answer _ ih => rw [eval_call answer, ih]
  · intro h
    induction p generalizing s with
    | ret b =>
        cases h
        exact .ret
    | call op next ih =>
        cases answer : handle op s with
        | none => simp [eval, answer] at h
        | some answered =>
            rw [eval_call answer] at h
            exact .call answer (ih _ h)

end Program

/-! ### The own steps of a program -/

/-- One operation of a program: the state it found, its response, the state it left. -/
structure OwnStep (σ Op : Type) (Res : Op → Type) where
  before : σ
  op : Op
  response : Res op
  after : σ

/-- The operations one program performs. Nothing relates the state an operation
leaves to the state the next one finds: anyone may have acted in between. -/
inductive Program.Performs {Op : Type} {Res : Op → Type} {α σ : Type}
    (step : σ → (op : Op) → Res op → σ → Prop) :
    Program Op Res α → List (OwnStep σ Op Res) → α → Prop
  | ret {a : α} : Performs step (.ret a) [] a
  | call {s s' : σ} {op : Op} {next : Res op → Program Op Res α} {r : Res op}
      {later : List (OwnStep σ Op Res)} {a : α} :
      step s op r s' → Performs step (next r) later a →
      Performs step (.call op next) (⟨s, op, r, s'⟩ :: later) a

theorem Program.Runs.performs {Op : Type} {Res : Op → Type} {α σ : Type}
    {step : σ → (op : Op) → Res op → σ → Prop} {s s' : σ} {p : Program Op Res α} {a : α}
    (run : Runs step s p a s') : ∃ steps, p.Performs step steps a := by
  induction run with
  | ret => exact ⟨[], .ret⟩
  | call first _ ih =>
      obtain ⟨later, rest⟩ := ih
      exact ⟨_, .call first rest⟩

/-- What a program may call and what it learns. `K` is its knowledge. -/
structure Discipline (Op : Type) (Res : Op → Type) (K : Type) where
  may : K → Op → Prop
  learn : K → (op : Op) → Res op → K

namespace Discipline

variable {Op : Type} {Res : Op → Type} {α β ε σ K : Type} {D : Discipline Op Res K}

/-- From knowledge `k` the program only makes calls it may make, whatever is
answered, and returns results that satisfy `done` of what it then knows. -/
def Obeys (D : Discipline Op Res K) (done : K → α → Prop) : Program Op Res α → K → Prop
  | .ret a, k => done k a
  | .call op next, k => D.may k op ∧ ∀ r, D.Obeys done (next r) (D.learn k op r)

@[simp] theorem obeys_ret {done : K → α → Prop} {a : α} {k : K} :
    D.Obeys done (.ret a) k ↔ done k a := Iff.rfl

@[simp] theorem obeys_call {done : K → α → Prop} {op : Op} {next : Res op → Program Op Res α}
    {k : K} : D.Obeys done (.call op next) k ↔
      D.may k op ∧ ∀ r, D.Obeys done (next r) (D.learn k op r) := Iff.rfl

theorem Obeys.mono {done done' : K → α → Prop} {p : Program Op Res α} {k : K}
    (h : D.Obeys done p k) (weaker : ∀ k a, done k a → done' k a) : D.Obeys done' p k := by
  induction p generalizing k with
  | ret a => exact weaker k a h
  | call op next ih => exact ⟨h.1, fun r => ih r (h.2 r)⟩

/-- Sequencing: the continuation starts from what the first part learned. -/
theorem Obeys.bind {mid : K → α → Prop} {done : K → β → Prop} {p : Program Op Res α}
    {f : α → Program Op Res β} {k : K} (h : D.Obeys mid p k)
    (after : ∀ k a, mid k a → D.Obeys done (f a) k) : D.Obeys done (p.bind f) k := by
  induction p generalizing k with
  | ret a => exact after k a h
  | call op next ih => exact ⟨h.1, fun r => ih r (h.2 r)⟩

theorem Obeys.andThen {mid : K → Except ε α → Prop} {done : K → Except ε β → Prop}
    {p : Program Op Res (Except ε α)} {f : α → Program Op Res (Except ε β)} {k : K}
    (h : D.Obeys mid p k) (after : ∀ k a, mid k (.ok a) → D.Obeys done (f a) k)
    (failed : ∀ k e, mid k (.error e) → done k (.error e)) : D.Obeys done (p.andThen f) k := by
  refine h.bind fun k r known => ?_
  cases r with
  | ok a => exact after k a known
  | error e => exact failed k e known

/-- A discipline is sound for a world when what is known stays true: of the
state a step of the program leads to, `learn` says what the program now knows. -/
theorem Obeys.runs {holds : K → σ → Prop} {step : σ → (op : Op) → Res op → σ → Prop}
    (sound : ∀ k s op r s', D.may k op → holds k s → step s op r s' → holds (D.learn k op r) s')
    {done : K → α → Prop} {p : Program Op Res α} {k : K} {s s' : σ} {a : α}
    (h : D.Obeys done p k) (known : holds k s) (run : Program.Runs step s p a s') :
    ∃ k', holds k' s' ∧ done k' a := by
  induction run generalizing k with
  | ret => exact ⟨k, known, h⟩
  | call first _ ih => exact ih (h.2 _) (sound k _ _ _ _ h.1 known first)

/-- A handler that answers all a program may ask runs it to its end. -/
theorem Obeys.returns {done : K → α → Prop} {p : Program Op Res α} {k : K}
    {handle : (op : Op) → σ → Option (Res op × σ)}
    (answers : ∀ k op s, D.may k op → (handle op s).isSome) (h : D.Obeys done p k) (s : σ) :
    (p.eval handle s).isSome := by
  induction p generalizing k s with
  | ret a => rfl
  | call op next ih =>
      obtain ⟨⟨r, s'⟩, answered⟩ := Option.isSome_iff_exists.mp (answers k op s h.1)
      rw [Program.eval_call answered]
      exact ih r (h.2 r) s'

/-- What a program has learned after a list of its own steps. -/
def learned (D : Discipline Op Res K) (k : K) (steps : List (OwnStep σ Op Res)) : K :=
  steps.foldl (fun k step => D.learn k step.op step.response) k

/-- What is known at the end and was not known at the start was learned at some step. -/
theorem learned_from {Q : K → Prop} {R : OwnStep σ Op Res → Prop}
    (one : ∀ k (step : OwnStep σ Op Res), Q (D.learn k step.op step.response) → Q k ∨ R step)
    {k : K} (steps : List (OwnStep σ Op Res)) (h : Q (D.learned k steps)) :
    Q k ∨ ∃ step ∈ steps, R step := by
  induction steps generalizing k with
  | nil => exact .inl h
  | cons step steps ih =>
      rcases ih h with now | ⟨later, member, found⟩
      · rcases one k step now with before | here
        · exact .inl before
        · exact .inr ⟨step, List.mem_cons_self .., here⟩
      · exact .inr ⟨later, List.mem_cons_of_mem _ member, found⟩

/-- Whatever others do between its operations, a program that obeys a discipline
makes only the calls it may make and ends as it says. -/
theorem Obeys.performs {step : σ → (op : Op) → Res op → σ → Prop} {done : K → α → Prop}
    {p : Program Op Res α} {k : K} {steps : List (OwnStep σ Op Res)} {a : α}
    (h : D.Obeys done p k) (run : p.Performs step steps a) :
    done (D.learned k steps) a ∧ ∀ earlier own later, steps = earlier ++ own :: later →
      step own.before own.op own.response own.after ∧ D.may (D.learned k earlier) own.op := by
  induction run generalizing k with
  | ret => exact ⟨h, by simp⟩
  | @call s s' op next r rest a first _ ih =>
      obtain ⟨final, each⟩ := ih (h.2 r)
      refine ⟨final, fun earlier own later split => ?_⟩
      cases earlier with
      | nil =>
          cases split
          exact ⟨first, h.1⟩
      | cons own' earlier =>
          obtain ⟨same, rest⟩ := List.cons.inj split
          subst same
          exact each earlier own later rest

/-- A program of other operations that are allowed and keep what is known. -/
theorem kept_lift {Op' : Type} {Res' : Op' → Type} {inject : Op' → Op}
    {project : (op : Op') → Res (inject op) → Res' op} {known : K → Prop} {k : K}
    (keeps : ∀ k op, known k → D.may k (inject op) ∧ ∀ r, known (D.learn k (inject op) r))
    (p : Program Op' Res' α) (h : known k) : D.Obeys (fun k _ => known k) (p.lift inject project) k := by
  induction p generalizing k with
  | ret a => exact h
  | call op next ih =>
      obtain ⟨may, learned⟩ := keeps k op h
      exact ⟨may, fun r => ih _ (learned r)⟩

/-- A program of other operations that are always allowed, whatever they teach. -/
theorem allowed_lift {Op' : Type} {Res' : Op' → Type} {inject : Op' → Op}
    {project : (op : Op') → Res (inject op) → Res' op} {k : K} (allowed : ∀ k op, D.may k (inject op))
    (p : Program Op' Res' α) : D.Obeys (fun _ _ => True) (p.lift inject project) k :=
  kept_lift (fun k op _ => ⟨allowed k op, fun _ => trivial⟩) p trivial

/-- One discipline out of a family, chosen once and known from then on. -/
def tagged {T : Type} (D : T → Discipline Op Res K) : Discipline Op Res (T × K) where
  may k op := (D k.1).may k.2 op
  learn k op r := (k.1, (D k.1).learn k.2 op r)

theorem Obeys.tagged {T : Type} {D : T → Discipline Op Res K} {t : T} {done : K → α → Prop}
    {p : Program Op Res α} {k : K} (h : (D t).Obeys done p k) :
    (Discipline.tagged D).Obeys (fun k a => k.1 = t ∧ done k.2 a) p (t, k) := by
  induction p generalizing k with
  | ret a => exact ⟨rfl, h⟩
  | call op next ih => exact ⟨h.1, fun r => ih r (h.2 r)⟩

/-- Everything is allowed and nothing is learned. -/
def free : Discipline Op Res Unit where
  may _ _ := True
  learn _ _ _ := ()

theorem obeys_free (p : Program Op Res α) : free.Obeys (fun _ _ => True) p () := by
  induction p with
  | ret a => exact trivial
  | call op next ih => exact ⟨trivial, ih⟩

/-- Two disciplines of one program, each with its own knowledge. -/
def both {K' : Type} (D : Discipline Op Res K) (E : Discipline Op Res K') :
    Discipline Op Res (K × K') where
  may k op := D.may k.1 op ∧ E.may k.2 op
  learn k op r := (D.learn k.1 op r, E.learn k.2 op r)

theorem Obeys.both {K' : Type} {E : Discipline Op Res K'} {done : K → α → Prop} {done' : K' → α → Prop}
    {p : Program Op Res α} {k : K} {k' : K'} (h : D.Obeys done p k) (h' : E.Obeys done' p k') :
    (D.both E).Obeys (fun k a => done k.1 a ∧ done' k.2 a) p (k, k') := by
  induction p generalizing k k' with
  | ret a => exact ⟨h, h'⟩
  | call op next ih => exact ⟨⟨h.1, h'.1⟩, fun r => ih r (h.2 r) (h'.2 r)⟩

end Discipline
end Foundation
