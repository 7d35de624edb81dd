import Mathlib

/-!
# Sublists by bit masks

A mask selects the entries of a list at its set bits. Testing, clearing and the
full mask are what their bits say, and on a list without repetitions a mask and
what it selects determine each other.
-/
namespace Foundation.Masks

variable {α : Type*} {width n i : Nat} {xs : List α} {mask other : BitVec width} {x : α}

/-- The mask of bit `i`. -/
abbrev bit (width i : Nat) : BitVec width := BitVec.ofNat width 1 <<< i

theorem test_iff : mask &&& bit width i ≠ 0 ↔ mask.getLsbD i = true := by
  rw [bit, ← BitVec.twoPow_eq, BitVec.and_twoPow]
  constructor
  · intro nonzero
    by_contra unset
    exact nonzero (if_neg unset)
  · intro set zero
    rw [if_pos set] at zero
    have bound : i < width := BitVec.lt_of_getLsbD set
    have value := congrArg BitVec.toNat zero
    rw [BitVec.toNat_twoPow_of_lt bound] at value
    exact absurd value (Nat.two_pow_pos i).ne'

theorem getLsbD_clear (mask : BitVec width) (i j : Nat) :
    (mask &&& ~~~bit width i).getLsbD j = (mask.getLsbD j && decide (j ≠ i)) := by
  rw [bit, ← BitVec.twoPow_eq]
  by_cases bound : j < width
  · by_cases same : i = j
    · simp [bound, same]
    · simp [bound, Ne.symm same]
  · simp [BitVec.getLsbD_of_ge _ _ (not_lt.mp bound)]

/-- The mask of the first `n` bits. -/
abbrev full (width n : Nat) : BitVec width := bit width n - 1

theorem toNat_full (bound : n < width) : (full width n).toNat = 2 ^ n - 1 := by
  have one : (1 : BitVec width).toNat = 1 := by
    have wide : 1 < 2 ^ width := Nat.one_lt_two_pow (by omega)
    simpa using Nat.mod_eq_of_lt wide
  have top : (bit width n).toNat = 2 ^ n := by
    rw [bit, ← BitVec.twoPow_eq, BitVec.toNat_twoPow_of_lt bound]
  have below : (1 : BitVec width) ≤ bit width n := by
    rw [BitVec.le_def, one, top]
    exact Nat.one_le_two_pow
  rw [full, BitVec.toNat_sub_of_le below, one, top]

theorem getLsbD_full (bound : n < width) (i : Nat) :
    (full width n).getLsbD i = decide (i < n) := by
  rw [← BitVec.testBit_toNat, toNat_full bound, Nat.testBit_two_pow_sub_one]

/-- A mask within the first `n` bits has no other bit. -/
theorem getLsbD_of_le_full (bound : n < width) (within : mask ≤ full width n) (i : Nat)
    (set : mask.getLsbD i = true) : i < n := by
  by_contra above
  rw [BitVec.le_def, toNat_full bound] at within
  have small : mask.toNat < 2 ^ i := by
    have grows : 2 ^ n ≤ 2 ^ i := Nat.pow_le_pow_right (by decide) (not_lt.mp above)
    have positive := Nat.two_pow_pos n
    omega
  rw [← BitVec.testBit_toNat, Nat.testBit_lt_two_pow small] at set
  cases set

theorem clear_le (mask : BitVec width) (i : Nat) : mask &&& ~~~bit width i ≤ mask := by
  rw [BitVec.le_def, BitVec.toNat_and]
  exact Nat.and_le_left

/-! ### Selecting -/

/-- The entries at the set bits. -/
def select (xs : List α) (mask : BitVec width) : List α :=
  (xs.zipIdx.filter fun entry => mask.getLsbD entry.2).map Prod.fst

theorem mem_select : x ∈ select xs mask ↔ ∃ i, xs[i]? = some x ∧ mask.getLsbD i = true := by
  constructor
  · intro member
    obtain ⟨⟨y, i⟩, chosen, rfl⟩ := List.mem_map.mp member
    obtain ⟨inside, set⟩ := List.mem_filter.mp chosen
    exact ⟨i, List.mk_mem_zipIdx_iff_getElem?.mp inside, set⟩
  · rintro ⟨i, at_i, set⟩
    apply List.mem_map.mpr
    refine ⟨(x, i), List.mem_filter.mpr ⟨?_, set⟩, rfl⟩
    exact List.mk_mem_zipIdx_iff_getElem?.mpr at_i

theorem select_sublist (xs : List α) (mask : BitVec width) : (select xs mask).Sublist xs := by
  have chosen := (List.filter_sublist (l := xs.zipIdx) (p := fun entry => mask.getLsbD entry.2)).map
    Prod.fst
  rw [List.zipIdx_map_fst] at chosen
  exact chosen

theorem select_full (bound : xs.length < width) : select xs (full width xs.length) = xs := by
  have all : xs.zipIdx.filter (fun entry => (full width xs.length).getLsbD entry.2) = xs.zipIdx := by
    apply List.filter_eq_self.mpr
    rintro ⟨y, i⟩ member
    have inside := (List.getElem?_eq_some_iff.mp (List.mk_mem_zipIdx_iff_getElem?.mp member)).1
    rw [getLsbD_full bound]
    exact decide_eq_true inside
  rw [select, all, List.zipIdx_map_fst]

theorem select_zero (xs : List α) : select xs (0 : BitVec width) = [] := by
  rw [List.eq_nil_iff_forall_not_mem]
  intro x member
  obtain ⟨i, _, set⟩ := mem_select.mp member
  simp at set

theorem index_unique (distinct : xs.Nodup) {j : Nat} (at_i : xs[i]? = some x)
    (at_j : xs[j]? = some x) : i = j := by
  obtain ⟨inside, _⟩ := List.getElem?_eq_some_iff.mp at_i
  exact (List.getElem?_inj inside distinct).mp (at_i.trans at_j.symm)

/-- Clearing the bit of an entry removes the entry. -/
theorem select_clear [DecidableEq α] (distinct : xs.Nodup) (at_i : xs[i]? = some x) :
    select xs (mask &&& ~~~bit width i) = (select xs mask).erase x := by
  rw [((select_sublist xs mask).nodup distinct).erase_eq_filter, select, select, List.filter_map,
    List.filter_filter]
  congr 1
  apply List.filter_congr
  rintro ⟨y, j⟩ member
  have at_j : xs[j]? = some y := List.mk_mem_zipIdx_iff_getElem?.mp member
  have other : j ≠ i ↔ y ≠ x := by
    rw [ne_eq, ne_eq, not_iff_not]
    constructor
    · rintro rfl
      exact Option.some.inj (at_j.symm.trans at_i)
    · rintro rfl
      exact index_unique distinct at_j at_i
  rw [getLsbD_clear, Bool.and_comm]
  congr 1
  by_cases removed : y = x
  · have here : j = i := not_not.mp fun ne => other.mp ne removed
    simp [removed, here]
  · have apart : j ≠ i := other.mpr removed
    simp [removed, apart]

/-- Two masks that select the same entries are the same. -/
theorem select_injective (distinct : xs.Nodup) (bound : xs.length < width)
    (within : mask ≤ full width xs.length) (within' : other ≤ full width xs.length)
    (same : select xs mask = select xs other) : mask = other := by
  have bits : ∀ {m m' : BitVec width}, m ≤ full width xs.length → select xs m = select xs m' →
      ∀ i, m.getLsbD i = true → m'.getLsbD i = true := by
    intro m m' small agree i set
    have inside := getLsbD_of_le_full bound small i set
    have at_i := List.getElem?_eq_getElem inside
    have member : xs[i] ∈ select xs m' := by
      rw [← agree]
      exact mem_select.mpr ⟨i, at_i, set⟩
    obtain ⟨j, at_j, set'⟩ := mem_select.mp member
    rw [index_unique distinct at_i at_j]
    exact set'
  apply BitVec.eq_of_getLsbD_eq
  intro i _
  rw [Bool.eq_iff_iff]
  exact ⟨bits within same i, bits within' same.symm i⟩

end Foundation.Masks
