import Mathlib

/-!
# Hashes that mix one byte at a time

A fold whose every step is injective in the state: what differs before a common
tail differs after it. The steps of FNV-1a, exclusive or with a byte and
multiplication by an odd number modulo a power of two, are of this kind.
-/
namespace Foundation

variable {σ β : Type}

/-- A state is recovered from the state after a known list of inputs. -/
theorem foldl_injective {step : σ → β → σ} (each : ∀ b, Function.Injective (step · b)) (tail : List β) :
    Function.Injective fun s => tail.foldl step s := by
  induction tail with
  | nil => exact Function.injective_id
  | cons b tail ih =>
      intro s s' same
      exact each b (ih same)

/-- A hash of 32 bits over bytes: exclusive or, then multiply. -/
def xorMultiply (prime : UInt32) (hash : UInt32) (byte : UInt8) : UInt32 :=
  (hash ^^^ byte.toUInt32) * prime

variable {prime inverse : UInt32}

theorem mul_left_injective_of_inverse (invertible : prime * inverse = 1) :
    Function.Injective fun hash : UInt32 => hash * prime := by
  intro h h' same
  have back : h * prime * inverse = h' * prime * inverse := congrArg (· * inverse) same
  rwa [UInt32.mul_assoc, UInt32.mul_assoc, invertible, UInt32.mul_one, UInt32.mul_one] at back

theorem xor_left_injective (x : UInt32) : Function.Injective fun hash : UInt32 => hash ^^^ x := by
  intro h h' same
  have back : h ^^^ x ^^^ x = h' ^^^ x ^^^ x := congrArg (· ^^^ x) same
  rwa [UInt32.xor_assoc, UInt32.xor_assoc, UInt32.xor_self, UInt32.xor_zero, UInt32.xor_zero] at back

theorem xorMultiply_injective (invertible : prime * inverse = 1) (byte : UInt8) :
    Function.Injective (xorMultiply prime · byte) :=
  (mul_left_injective_of_inverse invertible).comp (xor_left_injective byte.toUInt32)

/-- Two states that hash to one value over a common tail are one state. -/
theorem foldl_xorMultiply_inj (invertible : prime * inverse = 1) {h h' : UInt32} {tail : List UInt8} :
    tail.foldl (xorMultiply prime) h = tail.foldl (xorMultiply prime) h' ↔ h = h' :=
  (foldl_injective (xorMultiply_injective invertible) tail).eq_iff

/-- A byte only reaches the lowest eight bits of the state it is mixed into. -/
theorem xor_byte_div (h : UInt32) (byte : UInt8) :
    (h ^^^ byte.toUInt32).toNat / 256 = h.toNat / 256 := by
  have small : byte.toNat / 2 ^ 8 = 0 := Nat.div_eq_of_lt byte.toNat_lt
  rw [UInt32.toNat_xor, UInt8.toNat_toUInt32, show 256 = 2 ^ 8 from rfl, Nat.xor_div_two_pow, small,
    Nat.xor_zero]

/-- The byte is recovered from the states before and after. -/
theorem xor_byte_injective (h : UInt32) :
    Function.Injective fun byte : UInt8 => h ^^^ byte.toUInt32 := by
  intro b b' same
  have back : h ^^^ (h ^^^ b.toUInt32) = h ^^^ (h ^^^ b'.toUInt32) := congrArg (h ^^^ ·) same
  rw [← UInt32.xor_assoc, ← UInt32.xor_assoc, UInt32.xor_self, UInt32.zero_xor, UInt32.zero_xor] at back
  exact UInt8.toUInt32_inj.mp back

end Foundation
