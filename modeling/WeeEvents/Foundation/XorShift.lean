import Mathlib.Logic.Function.Basic

/-!
# Generators that shift and mix

A word combined with itself, shifted: the steps of the xorshift generators. Each
loses nothing, since every bit is found again from the ones that it was mixed with.
-/
namespace Foundation

variable {w n : Nat}

def xorShiftLeft (n : Nat) (x : BitVec w) : BitVec w := x ^^^ (x <<< n)

def xorShiftRight (n : Nat) (x : BitVec w) : BitVec w := x ^^^ (x >>> n)

/-- Only zero is what it is shifted to. -/
theorem eq_zero_of_shiftLeft {z : BitVec w} (pos : 0 < n) (same : z = z <<< n) : z = 0#w := by
  have bits : ∀ i, z.getLsbD i = false := by
    intro i
    induction i using Nat.strongRecOn with
    | ind i ih =>
        rw [same, BitVec.getLsbD_shiftLeft]
        by_cases low : i < n
        · simp [low]
        · rw [ih (i - n) (by omega), Bool.and_false]
  apply BitVec.eq_of_getLsbD_eq
  intro i _
  rw [bits i, BitVec.getLsbD_zero]

theorem eq_zero_of_shiftRight {z : BitVec w} (pos : 0 < n) (same : z = z >>> n) : z = 0#w := by
  -- from the top bit down: a bit comes from one further up
  have bits : ∀ k i, w ≤ i + k → z.getLsbD i = false := by
    intro k
    induction k with
    | zero => exact fun i high => BitVec.getLsbD_of_ge z i high
    | succ k ih =>
        intro i high
        rw [same, BitVec.getLsbD_ushiftRight]
        exact ih (n + i) (by omega)
  apply BitVec.eq_of_getLsbD_eq
  intro i _
  rw [bits w i (by omega), BitVec.getLsbD_zero]

/-- What is mixed into two words with one result differs as they do. -/
theorem xor_of_xor_eq {x y u v : BitVec w} (same : x ^^^ u = y ^^^ v) : x ^^^ y = u ^^^ v := by
  have back : y ^^^ (x ^^^ u) ^^^ u = y ^^^ (y ^^^ v) ^^^ u := congrArg (y ^^^ · ^^^ u) same
  rw [← BitVec.xor_assoc y y v, BitVec.xor_self, BitVec.zero_xor, BitVec.xor_assoc y, BitVec.xor_assoc x,
    BitVec.xor_self, BitVec.xor_zero] at back
  rw [BitVec.xor_comm x y, BitVec.xor_comm u v]
  exact back

theorem xorShiftLeft_injective (pos : 0 < n) : Function.Injective (xorShiftLeft (w := w) n) := by
  intro x y same
  refine BitVec.xor_eq_zero_iff.mp (eq_zero_of_shiftLeft pos ?_)
  rw [BitVec.shiftLeft_xor_distrib]
  exact xor_of_xor_eq same

theorem xorShiftRight_injective (pos : 0 < n) : Function.Injective (xorShiftRight (w := w) n) := by
  intro x y same
  refine BitVec.xor_eq_zero_iff.mp (eq_zero_of_shiftRight pos ?_)
  rw [BitVec.ushiftRight_xor_distrib]
  exact xor_of_xor_eq same

end Foundation
