import Mathlib

/-!
# Patterns with a wildcard

A pattern is a word in which one letter, the wildcard, stands for any word. Two
readings of it: `Fills`, the declarative one, and `Keeps`, in which a wildcard
that stands at an occurrence of its own letter stands for that one letter. The
second reading is the one a single remembered wildcard can search.
-/
namespace Foundation.Glob

variable {α : Type} {wild : α} {p r text u v : List α}

/-- The word comes from the pattern by putting some word for each wildcard. -/
inductive Fills (wild : α) : List α → List α → Prop
  | nil : Fills wild [] []
  | letter {c : α} {p text : List α} (plain : c ≠ wild) :
      Fills wild p text → Fills wild (c :: p) (c :: text)
  | hole {p text : List α} (filling : List α) :
      Fills wild p text → Fills wild (wild :: p) (filling ++ text)

/-- A filling in which each wildcard that stands at its own letter is filled by
exactly that letter. -/
inductive Keeps (wild : α) : List α → List α → Prop
  | nil : Keeps wild [] []
  | letter {c : α} {p text : List α} : Keeps wild p text → Keeps wild (c :: p) (c :: text)
  | hole {p text : List α} (filling : List α) (apart : (filling ++ text).head? ≠ some wild) :
      Keeps wild p text → Keeps wild (wild :: p) (filling ++ text)

theorem Keeps.fills (keeps : Keeps wild p text) : Fills wild p text := by
  induction keeps with
  | nil => exact .nil
  | @letter c p text _ ih =>
      by_cases plain : c = wild
      · subst plain
        exact Fills.hole [c] ih
      · exact .letter plain ih
  | hole filling _ _ ih => exact .hole filling ih

/-- The two readings agree on words without the wildcard's own letter. -/
theorem Fills.keeps (absent : wild ∉ text) (fills : Fills wild p text) : Keeps wild p text := by
  induction fills with
  | nil => exact .nil
  | letter _ _ ih => exact .letter (ih (List.not_mem_of_not_mem_cons absent))
  | @hole p text filling _ ih =>
      have apart : (filling ++ text).head? ≠ some wild := by
        intro first
        exact absent (List.mem_of_mem_head? first)
      apply Keeps.hole filling apart
      apply ih
      intro mem
      exact absent (List.mem_append_right filling mem)

@[simp] theorem keeps_nil_iff : Keeps wild [] text ↔ text = [] := by
  constructor
  · intro keeps
    cases keeps
    rfl
  · rintro rfl
    exact .nil

/-- A letter of the pattern that is met in the word is always consumed. -/
@[simp] theorem keeps_cons_self {c : α} :
    Keeps wild (c :: p) (c :: text) ↔ Keeps wild p text := by
  constructor
  · intro keeps
    generalize same : c :: text = word at keeps
    cases keeps with
    | letter rest =>
        cases same
        exact rest
    | hole filling apart _ =>
        exact absurd (by rw [← same]; rfl) apart
  · exact .letter

theorem keeps_cons_ne {c b : α} (other : c ≠ b) (plain : c ≠ wild) :
    ¬ Keeps wild (c :: p) (b :: text) := by
  intro keeps
  generalize same : b :: text = word at keeps
  cases keeps with
  | letter _ =>
      cases same
      exact other rfl
  | hole _ _ _ => exact plain rfl

/-- However a wildcard is filled, the pattern after it gets an end of the word. -/
theorem Keeps.after_wild (keeps : Keeps wild (wild :: p) text) :
    ∃ v, v <:+ text ∧ Keeps wild p v := by
  cases keeps with
  | letter rest => exact ⟨_, List.suffix_cons wild _, rest⟩
  | hole filling _ rest => exact ⟨_, List.suffix_append filling _, rest⟩

/-- At another letter a wildcard leaves any end of the word to the pattern after it. -/
theorem keeps_wild {b : α} (other : b ≠ wild) :
    Keeps wild (wild :: p) (b :: text) ↔ ∃ v, v <:+ b :: text ∧ Keeps wild p v := by
  constructor
  · exact Keeps.after_wild
  · rintro ⟨v, ⟨filling, split⟩, rest⟩
    rw [← split]
    apply Keeps.hole filling _ rest
    rw [split]
    simpa using other

theorem keeps_empty : Keeps wild p [] ↔ ∀ c ∈ p, c = wild := by
  constructor
  · intro keeps
    generalize empty : ([] : List α) = word at keeps
    induction keeps with
    | nil => simp
    | letter _ _ => cases empty
    | @hole p text filling _ _ ih =>
        obtain ⟨-, rfl⟩ := List.append_eq_nil_iff.mp empty.symm
        simpa using ih rfl
  · intro all
    induction p with
    | nil => exact .nil
    | cons c p ih =>
        have star : c = wild := all c (by simp)
        subst star
        apply Keeps.hole [] (by simp)
        exact ih fun d mem => all d (List.mem_cons_of_mem _ mem)

@[simp] theorem keeps_append_self : Keeps wild (u ++ p) (u ++ text) ↔ Keeps wild p text := by
  induction u with
  | nil => rfl
  | cons c u ih => simpa using ih

/-- Where the pattern begins with a word that is met letter by letter, a filling
that starts later reaches the rest of the pattern later too: it cannot cross the
letters met without being forced along them. -/
theorem Keeps.later (suffix : v <:+ u ++ text) (keeps : Keeps wild (u ++ p) v) :
    ∃ v', v' <:+ text ∧ Keeps wild p v' := by
  induction u generalizing v with
  | nil => exact ⟨v, suffix, keeps⟩
  | cons c u ih =>
      rcases List.suffix_cons_iff.mp suffix with rfl | shorter
      · exact ih (List.suffix_refl _) (keeps_cons_self.mp keeps)
      · cases keeps with
        | letter rest => exact ih ((List.suffix_cons c _).trans shorter) rest
        | hole filling _ rest => exact ih ((List.suffix_append filling _).trans shorter) rest

end Foundation.Glob
