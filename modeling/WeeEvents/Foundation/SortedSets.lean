import WeeEvents.Foundation.Sequence

/-!
# Sets kept as sorted lists

A list is sorted and its neighbouring duplicates are dropped. The result holds
the same elements in strictly increasing order, and no other list does.
-/
namespace Foundation

variable {α β : Type*} [LinearOrder β] {key : α → β} {l m : List α}

theorem Increasing.nodup (h : Increasing key l) : l.Nodup := by
  apply h.imp
  rintro a b less rfl
  exact lt_irrefl _ less

/-- An increasing list is determined by its elements. -/
theorem Increasing.ext (hl : Increasing key l) (hm : Increasing key m)
    (same : ∀ a, a ∈ l ↔ a ∈ m) : l = m := by
  have perm : l.Perm m := (List.perm_ext_iff_of_nodup hl.nodup hm.nodup).mpr same
  apply perm.eq_of_pairwise _ hl hm
  intro a b _ _ less greater
  exact absurd (less.trans greater) (lt_irrefl _)

theorem Increasing.filter (h : Increasing key l) (p : α → Bool) :
    Increasing key (l.filter p) := List.Pairwise.filter p h

variable [DecidableEq α]

/-- Dropping neighbouring duplicates drops no element. -/
theorem mem_destutter'_ne {a x : α} : x ∈ l.destutter' (· ≠ ·) a ↔ x = a ∨ x ∈ l := by
  induction l generalizing a with
  | nil => simp
  | cons b rest ih =>
      by_cases differ : a ≠ b
      · rw [List.destutter'_cons_pos _ differ, List.mem_cons, ih, List.mem_cons]
      · rw [List.destutter'_cons_neg _ differ, ih, not_not.mp differ, List.mem_cons]
        tauto

theorem mem_destutter_ne {x : α} : x ∈ l.destutter (· ≠ ·) ↔ x ∈ l := by
  cases l with
  | nil => simp
  | cons a rest => rw [List.destutter_cons', mem_destutter'_ne, List.mem_cons]

omit [DecidableEq α] in
/-- A sorted list whose neighbours differ is strictly sorted. -/
theorem increasing_of_isChain (injective : Function.Injective key) (apart : l.IsChain (· ≠ ·))
    (sorted : l.Pairwise fun a b => key a ≤ key b) : Increasing key l := by
  induction l with
  | nil => exact .nil
  | cons a rest ih =>
      obtain ⟨first, sortedRest⟩ := List.pairwise_cons.mp sorted
      cases rest with
      | nil => exact List.pairwise_singleton _ a
      | cons b rest =>
          obtain ⟨ne, apartRest⟩ := List.isChain_cons_cons.mp apart
          have increasing := ih apartRest sortedRest
          have less : key a < key b :=
            lt_of_le_of_ne (first b List.mem_cons_self) fun same => ne (injective same)
          refine List.pairwise_cons.mpr ⟨fun c member => ?_, increasing⟩
          rcases List.mem_cons.mp member with rfl | later
          · exact less
          · exact less.trans ((List.pairwise_cons.mp increasing).1 c later)

/-- What is left of a sorted list is strictly sorted. -/
theorem increasing_destutter (injective : Function.Injective key)
    (sorted : l.Pairwise fun a b => key a ≤ key b) : Increasing key (l.destutter (· ≠ ·)) :=
  increasing_of_isChain injective (List.isChain_destutter (· ≠ ·) l)
    (sorted.sublist (List.destutter_sublist (· ≠ ·) l))

end Foundation
