import Mathlib

/-!
# Order matchings

A list of pairs that increases in both coordinates matches what stands left with
what stands right: equal with equal and smaller with smaller. Two increasing
sequences zipped together make one, and as both grow it only gets longer.
-/
namespace Foundation

variable {α β : Type*} [LinearOrder α] [LinearOrder β]

/-- Both coordinates increase along the list. -/
def OrderMatching (pairs : List (α × β)) : Prop := pairs.Pairwise fun p q => p.1 < q.1 ∧ p.2 < q.2

namespace OrderMatching

variable {pairs : List (α × β)} {p q : α × β}

/-- Two pairs are the same, or one is smaller in both coordinates. -/
theorem trichotomy (h : OrderMatching pairs) (hp : p ∈ pairs) (hq : q ∈ pairs) :
    p = q ∨ (p.1 < q.1 ∧ p.2 < q.2) ∨ (q.1 < p.1 ∧ q.2 < p.2) := by
  induction pairs with
  | nil => cases hp
  | cons first rest ih =>
      obtain ⟨below, later⟩ := List.pairwise_cons.mp h
      rcases List.mem_cons.mp hp with rfl | inside
      · rcases List.mem_cons.mp hq with rfl | inside'
        · exact .inl rfl
        · exact .inr (.inl (below q inside'))
      · rcases List.mem_cons.mp hq with rfl | inside'
        · exact .inr (.inr (below p inside))
        · exact ih later inside inside'

theorem eq_iff (h : OrderMatching pairs) (hp : p ∈ pairs) (hq : q ∈ pairs) :
    p.1 = q.1 ↔ p.2 = q.2 := by
  rcases h.trichotomy hp hq with rfl | ⟨left, right⟩ | ⟨left, right⟩
  · exact ⟨fun _ => rfl, fun _ => rfl⟩
  · rw [iff_false_left left.ne]
    exact right.ne
  · rw [iff_false_left left.ne']
    exact right.ne'

/-- Increasing sequences, side by side. -/
theorem zip {l : List α} {m : List β} (left : l.Pairwise (· < ·)) (right : m.Pairwise (· < ·)) :
    OrderMatching (l.zip m) := by
  induction l generalizing m with
  | nil => exact List.Pairwise.nil
  | cons a l ih =>
      cases m with
      | nil => exact List.Pairwise.nil
      | cons b m =>
          obtain ⟨below, later⟩ := List.pairwise_cons.mp left
          obtain ⟨below', later'⟩ := List.pairwise_cons.mp right
          refine List.pairwise_cons.mpr ⟨?_, ih later later'⟩
          rintro ⟨a', b'⟩ member
          obtain ⟨inLeft, inRight⟩ := List.of_mem_zip member
          exact ⟨below a' inLeft, below' b' inRight⟩

end OrderMatching
end Foundation
