import Mathlib

/-!
# Guarded registers

A register that takes a written value only when its rank is strictly greater than
the stored one. What a list of writes leaves is the value of greatest rank, the
stored one first, so it depends on the set of writes alone as soon as writes of
equal rank are equal.
-/
namespace Foundation.Register

variable {α β : Type*} [LinearOrder β] {rank : α → β} {stored : Option α} {a b : α}
  {writes writes' : List α}

/-- The value that the writes leave: of greatest rank, and the stored one as long
as no write has a greater rank. -/
structure Left (rank : α → β) (stored : Option α) (writes : List α) (a : α) : Prop where
  source : stored = some a ∨ a ∈ writes
  greatest : ∀ b, stored = some b ∨ b ∈ writes → rank b ≤ rank a
  first : ∀ b, stored = some b → rank b = rank a → b = a

/-- Writes of equal rank are equal. -/
def Agree (rank : α → β) (writes : List α) : Prop :=
  ∀ a ∈ writes, ∀ b ∈ writes, rank a = rank b → a = b

theorem Left.unique (agree : Agree rank writes) (same : ∀ c, c ∈ writes' ↔ c ∈ writes)
    (h : Left rank stored writes a) (h' : Left rank stored writes' b) : a = b := by
  have available : ∀ c, stored = some c ∨ c ∈ writes' ↔ stored = some c ∨ c ∈ writes := by
    intro c
    rw [same]
  have equal : rank a = rank b := by
    apply le_antisymm
    · exact h'.greatest a ((available a).mpr h.source)
    · exact h.greatest b ((available b).mp h'.source)
  rcases h.source with isStored | written
  · exact h'.first a isStored equal
  · rcases h'.source with isStored' | written'
    · exact (h.first b isStored' equal.symm).symm
    · exact agree a written b ((same b).mp written') equal

end Foundation.Register
