import Mathlib

/-!
# Append-only sequences with increasing keys

A log whose entries carry strictly increasing keys is determined, among the
prefixes of one growing log, by the key of its last entry. This is what makes
a single key usable as a version number for the whole log.
-/
namespace Foundation

variable {α β : Type*} [LinearOrder β]

/-- Consecutive entries, hence all entries, have strictly increasing keys. -/
def Increasing (key : α → β) (l : List α) : Prop := l.Pairwise fun a b => key a < key b

variable {key : α → β} {l m : List α}

theorem Increasing.nil : Increasing key [] := List.Pairwise.nil

theorem Increasing.of_append_left (h : Increasing key (l ++ m)) : Increasing key l :=
  (List.pairwise_append.mp h).1

theorem Increasing.of_isPrefix (h : Increasing key m) (before : l <+: m) : Increasing key l := by
  obtain ⟨rest, rfl⟩ := before
  exact h.of_append_left

/-- Appending a batch keeps the order when the batch is increasing and starts
above everything already there. -/
theorem Increasing.append (hl : Increasing key l) (hm : Increasing key m)
    (above : ∀ a ∈ l, ∀ b ∈ m, key a < key b) : Increasing key (l ++ m) :=
  List.pairwise_append.mpr ⟨hl, hm, above⟩

theorem Increasing.concat {a : α} (hl : Increasing key l) (above : ∀ b ∈ l, key b < key a) :
    Increasing key (l ++ [a]) :=
  hl.append (List.pairwise_singleton _ a) (fun b member c last => by
    rw [List.mem_singleton.mp last]; exact above b member)

theorem Increasing.le_last (h : Increasing key l) {a : α} (last : l.getLast? = some a) :
    ∀ b ∈ l, key b ≤ key a := by
  obtain ⟨front, rfl⟩ := List.getLast?_eq_some_iff.mp last
  intro b member
  rcases List.mem_append.mp member with early | final
  · exact ((List.pairwise_append.mp h).2.2 b early a (by simp)).le
  · rw [List.mem_singleton.mp final]

/-- Two prefixes of one increasing log with the same last key are the same prefix. -/
theorem Increasing.eq_of_prefix {whole : List α} (h : Increasing key whole) (hl : l <+: whole)
    (hm : m <+: whole) (same : l.getLast?.map key = m.getLast?.map key) : l = m := by
  have shorter : ∀ p q : List α, Increasing key q → p <+: q →
      p.getLast?.map key = q.getLast?.map key → p = q := by
    rintro p q hq ⟨rest, rfl⟩ agree
    rcases List.eq_nil_or_concat rest with rfl | ⟨front, b, rfl⟩
    · exact (List.append_nil p).symm
    · rw [List.concat_eq_append, ← List.append_assoc, List.getLast?_concat] at agree
      cases last : p.getLast? with
      | none => rw [last] at agree; cases agree
      | some a =>
          rw [last] at agree
          have lt := (List.pairwise_append.mp hq).2.2 a (List.mem_of_getLast? last) b (by simp)
          exact absurd (Option.some.inj agree) lt.ne
  rcases List.prefix_or_prefix_of_prefix hl hm with lm | ml
  · exact shorter l m (h.of_isPrefix hm) lm same
  · exact (shorter m l (h.of_isPrefix hl) ml same.symm).symm

/-- The maximum of the keys of an increasing log is its last key. -/
theorem Increasing.max?_map
    (h : Increasing key l) : (l.map key).max? = l.getLast?.map key := by
  cases last : l.getLast? with
  | none => rw [List.getLast?_eq_none_iff.mp last]; rfl
  | some a =>
      rw [Option.map_some, List.max?_eq_some_iff]
      refine ⟨List.mem_map_of_mem (List.mem_of_getLast? last), ?_⟩
      intro k member
      obtain ⟨b, inside, rfl⟩ := List.mem_map.mp member
      exact h.le_last last b inside

end Foundation
