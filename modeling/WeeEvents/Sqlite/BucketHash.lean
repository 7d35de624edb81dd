import WeeEvents.Foundation.XorMultiply
import WeeEvents.Sqlite.Base32

/-!
# The bucket hash and the boundary between type and key

The hash reads the length of the type in four bytes and then the bytes of type
and key. Two identifiers with the same bytes and another boundary differ in the
four bytes only, so whether their hashes differ is decided there.
-/
namespace WeeEvents.Sqlite
open Foundation

/-- FNV-1a over a list of bytes. -/
def fnv1a (bytes : List UInt8) : UInt32 := bytes.foldl (xorMultiply 0x01000193) 0x811c9dc5

theorem hashAggregateId_eq (id : AggregateId) :
    hashAggregateId id =
      fnv1a (toLeBytes (saturateU32 id.aggregateType.text.toUTF8.toList.length) ++
        (id.aggregateType.text.toUTF8.toList ++ id.aggregateKey.toUTF8.toList)) := by
  rw [← List.append_assoc]
  rfl

theorem fnv1a_prime_invertible : (0x01000193 : UInt32) * 0x359c449b = 1 := by decide

/-- A common tail does not decide whether two hashes are equal. -/
theorem fnv1a_append_inj {bytes bytes' tail : List UInt8} :
    fnv1a (bytes ++ tail) = fnv1a (bytes' ++ tail) ↔ fnv1a bytes = fnv1a bytes' := by
  rw [fnv1a, fnv1a, List.foldl_append, List.foldl_append]
  exact foldl_xorMultiply_inj fnv1a_prime_invertible

/-- The identifier whose type is the first `i` bytes of a text and whose key is the rest. -/
structure SplitAt (s : String) (i : Nat) (id : AggregateId) : Prop where
  whole : id.aggregateType.text ++ id.aggregateKey = s
  bytes : id.aggregateType.text.utf8ByteSize = i

theorem toUTF8_append (s t : String) : (s ++ t).toUTF8.toList = s.toUTF8.toList ++ t.toUTF8.toList := by
  rw [byteArray_toList, byteArray_toList, byteArray_toList, ← Array.toList_append,
    ← ByteArray.data_append]
  rfl

theorem length_toUTF8 (s : String) : s.toUTF8.toList.length = s.utf8ByteSize := by
  rw [byteArray_toList]
  rfl

/-- The hash of a split text: the length of the type, then the text. -/
theorem SplitAt.hash {s : String} {i : Nat} {id : AggregateId} (split : SplitAt s i id) :
    hashAggregateId id = fnv1a (toLeBytes (saturateU32 i) ++ s.toUTF8.toList) := by
  rw [hashAggregateId_eq, length_toUTF8, split.bytes, ← split.whole, toUTF8_append]

/-! ### The four bytes of a length

A byte changes the low eight bits of a state, and multiplying by `2 ^ 24 + 403`
carries them upwards. Two states that differ in few bits and meet again in their
high bits after one more byte would have to differ by a small multiple of `403`
that is a multiple of `2 ^ 24` up to one byte, and there is none.
-/

/-- What two rounds leave of a difference `d` of the first byte: none, if `w`, the low part of the
difference after them, and its carry `k` belong together as the multiplication has it. -/
theorem no_difference {d w k b m : Int} (m_byte : -255 ≤ m ∧ m ≤ 255) (d_byte : -255 ≤ d ∧ d ≤ 255)
    (near : -510 ≤ w - 403 * d ∧ w - 403 * d ≤ 510) (low : 403 * w = m + 16777216 * k)
    (high : w + k + 403 * d = 256 * b) : d = 0 ∧ w = 0 ∧ k = 0 := by
  have reach : -103275 ≤ w ∧ w ≤ 103275 := by omega
  have carry : k = -2 ∨ k = -1 ∨ k = 0 ∨ k = 1 ∨ k = 2 := by omega
  rcases carry with rfl | rfl | rfl | rfl | rfl
  · have : w = -83261 ∨ w = -83262 := by omega
    have : d = -206 ∨ d = -207 := by omega
    omega
  · have : w = -41631 := by omega
    have : d = -103 ∨ d = -104 := by omega
    omega
  · have : w = 0 := by omega
    omega
  · have : w = 41631 := by omega
    have : d = 103 ∨ d = 104 := by omega
    omega
  · have : w = 83261 ∨ w = 83262 := by omega
    have : d = 206 ∨ d = 207 := by omega
    omega

/-- The same for two multiplications in a row, the quotients and remainders written out. -/
theorem no_difference_of_rounds {d q t l c q' m : Int} (d_byte : -255 ≤ d ∧ d ≤ 255)
    (l_byte : -255 ≤ l ∧ l ≤ 255) (c_byte : -255 ≤ c ∧ c ≤ 255) (m_byte : -255 ≤ m ∧ m ≤ 255)
    (t_high : -16777216 < t ∧ t < 16777216) (first : 16777619 * d = 4294967296 * q + 256 * t + l)
    (second : 16777619 * (256 * t + c) = 4294967296 * q' + m) : d = 0 ∧ 256 * t + c = 0 := by
  have low : 403 * (403 * d + c - l) =
      m + 16777216 * (256 * (q' + 16777619 * q - 65536 * d) - 806 * d - c + l) := by
    linear_combination second + 16777619 * first
  have high : (403 * d + c - l) + (256 * (q' + 16777619 * q - 65536 * d) - 806 * d - c + l) + 403 * d =
      256 * (q' + 16777619 * q - 65536 * d) := by
    ring
  obtain ⟨rfl, w, k⟩ := no_difference m_byte d_byte (by omega) low high
  refine ⟨rfl, ?_⟩
  clear low high second
  omega

/-- Two rounds tell the states `x` and `x'` before them apart, by the bits above the lowest byte. -/
theorem rounds_apart {x x' y y' : Nat} (start : x / 256 = x' / 256)
    (next : y / 256 = x * 16777619 % 4294967296 / 256)
    (next' : y' / 256 = x' * 16777619 % 4294967296 / 256)
    (same : y * 16777619 % 4294967296 / 256 = y' * 16777619 % 4294967296 / 256) :
    x = x' ∧ y = y' := by
  have first : 16777619 * ((x : Int) - x') =
      4294967296 * (↑(x * 16777619 / 4294967296) - ↑(x' * 16777619 / 4294967296)) +
        256 * (↑(y / 256) - ↑(y' / 256)) +
        (↑(x * 16777619 % 4294967296 % 256) - ↑(x' * 16777619 % 4294967296 % 256)) := by
    omega
  have second : 16777619 * (256 * ((↑(y / 256) : Int) - ↑(y' / 256)) + (↑(y % 256) - ↑(y' % 256))) =
      4294967296 * (↑(y * 16777619 / 4294967296) - ↑(y' * 16777619 / 4294967296)) +
        (↑(y * 16777619 % 4294967296 % 256) - ↑(y' * 16777619 % 4294967296 % 256)) := by
    omega
  obtain ⟨equal, equal'⟩ := no_difference_of_rounds (by omega) (by omega) (by omega) (by omega)
    (by omega) first second
  constructor <;> omega

/-- Four bytes with the same last one have one hash only if they are the same. -/
theorem fnv1a_four_inj {a b c a' b' c' d : UInt8} (same : fnv1a [a, b, c, d] = fnv1a [a', b', c', d]) :
    a = a' ∧ b = b' ∧ c = c' := by
  have prime : (0x01000193 : UInt32).toNat = 16777619 := by decide
  have multiplied : ∀ x : UInt32, (x * 0x01000193).toNat = x.toNat * 16777619 % 4294967296 := by
    intro x
    rw [UInt32.toNat_mul, prime]
  have meet : xorMultiply 0x01000193 (xorMultiply 0x01000193 0x811c9dc5 a) b ^^^ c.toUInt32 =
      xorMultiply 0x01000193 (xorMultiply 0x01000193 0x811c9dc5 a') b' ^^^ c'.toUInt32 :=
    mul_left_injective_of_inverse fnv1a_prime_invertible
      (xorMultiply_injective fnv1a_prime_invertible d same)
  have high : (xorMultiply 0x01000193 (xorMultiply 0x01000193 0x811c9dc5 a) b).toNat / 256 =
      (xorMultiply 0x01000193 (xorMultiply 0x01000193 0x811c9dc5 a') b').toNat / 256 := by
    rw [← xor_byte_div _ c, meet, xor_byte_div]
  have start : ((0x811c9dc5 : UInt32) ^^^ a.toUInt32).toNat / 256 =
      ((0x811c9dc5 : UInt32) ^^^ a'.toUInt32).toNat / 256 := by
    rw [xor_byte_div, xor_byte_div]
  have next : ∀ x : UInt8, ∀ y : UInt8,
      (xorMultiply 0x01000193 0x811c9dc5 x ^^^ y.toUInt32).toNat / 256 =
        ((0x811c9dc5 : UInt32) ^^^ x.toUInt32).toNat * 16777619 % 4294967296 / 256 := by
    intro x y
    rw [xor_byte_div, xorMultiply, multiplied]
  have after : ∀ h : UInt32, ∀ y : UInt8,
      (xorMultiply 0x01000193 h y).toNat = (h ^^^ y.toUInt32).toNat * 16777619 % 4294967296 :=
    fun h y => multiplied _
  rw [after, after] at high
  obtain ⟨equal, equal'⟩ := rounds_apart start (next a b) (next a' b') high
  obtain rfl : a = a' := xor_byte_injective _ (UInt32.toNat_inj.mp equal)
  obtain rfl : b = b' := xor_byte_injective _ (UInt32.toNat_inj.mp equal')
  exact ⟨rfl, rfl, xor_byte_injective _ meet⟩

theorem toNat_saturateU32 {n : Nat} (small : n < 2 ^ 32) : (saturateU32 n).toNat = n := by
  rw [saturateU32, UInt32.toNat_ofNat', Nat.min_eq_left (by omega), Nat.mod_eq_of_lt small]

/-- The digests of the four bytes of two lengths differ. -/
def LengthsApart (i j : Nat) : Prop :=
  fnv1a (toLeBytes (saturateU32 i)) ≠ fnv1a (toLeBytes (saturateU32 j))

instance : DecidableRel LengthsApart := fun _ _ => inferInstanceAs (Decidable (_ ≠ _))

theorem shifted_byte (n k : UInt32) : (n >>> k).toUInt8.toNat = n.toNat / 2 ^ (k.toNat % 32) % 256 := by
  rw [UInt32.toNat_toUInt8, UInt32.toNat_shiftRight, Nat.shiftRight_eq_div_pow]

/-- Lengths in one multiple of `2 ^ 24`, such as all below it, have different digests. -/
theorem LengthsApart.of_block {i j : Nat} (small : i < 2 ^ 32) (small' : j < 2 ^ 32) (apart : i ≠ j)
    (block : i / 2 ^ 24 = j / 2 ^ 24) : LengthsApart i j := by
  intro same
  apply apart
  have top : (saturateU32 i >>> 24).toUInt8 = (saturateU32 j >>> 24).toUInt8 := by
    rw [← UInt8.toNat_inj, shifted_byte, shifted_byte, toNat_saturateU32 small,
      toNat_saturateU32 small']
    exact congrArg (· % 256) block
  rw [toLeBytes, toLeBytes, top] at same
  obtain ⟨first, second, third⟩ := fnv1a_four_inj same
  have low : i % 256 = j % 256 := by
    have bytes := congrArg UInt8.toNat first
    rwa [UInt32.toNat_toUInt8, UInt32.toNat_toUInt8, toNat_saturateU32 small,
      toNat_saturateU32 small'] at bytes
  have middle : i / 256 % 256 = j / 256 % 256 := by
    have bytes := congrArg UInt8.toNat second
    rwa [shifted_byte, shifted_byte, toNat_saturateU32 small, toNat_saturateU32 small'] at bytes
  have high : i / 65536 % 256 = j / 65536 % 256 := by
    have bytes := congrArg UInt8.toNat third
    rwa [shifted_byte, shifted_byte, toNat_saturateU32 small, toNat_saturateU32 small'] at bytes
  omega

/-- Two splits of one text have different hashes exactly if the digests of their lengths differ,
whatever the text; lengths in one multiple of `2 ^ 24` always do. -/
theorem boundary_collides_iff {s : String} {i j : Nat} {a b : AggregateId} (split : SplitAt s i a)
    (split' : SplitAt s j b) (small : i < 2 ^ 32) (small' : j < 2 ^ 32) (apart : i ≠ j) :
    (hashAggregateId a ≠ hashAggregateId b ↔ LengthsApart i j) ∧
      (i / 2 ^ 24 = j / 2 ^ 24 → LengthsApart i j) := by
  constructor
  · rw [split.hash, split'.hash, LengthsApart]
    exact fnv1a_append_inj.not
  · intro block
    exact LengthsApart.of_block small small' apart block

/-- The two identifiers that the documentation of the hash names. -/
theorem documented_boundary :
    hashAggregateId ⟨⟨"foo:"⟩, "bar"⟩ ≠ hashAggregateId ⟨⟨"foo"⟩, ":bar"⟩ := by
  have split : SplitAt "foo:bar" 4 ⟨⟨"foo:"⟩, "bar"⟩ := ⟨by decide, by decide⟩
  have split' : SplitAt "foo:bar" 3 ⟨⟨"foo"⟩, ":bar"⟩ := ⟨by decide, by decide⟩
  have ⟨exactly, block⟩ := boundary_collides_iff split split' (by decide) (by decide) (by decide)
  exact exactly.mpr (block (by decide))

/-- A text of `n` letters. -/
def letters (n : Nat) : String := String.ofList (List.replicate n 'a')

theorem letters_append (m n : Nat) : letters m ++ letters n = letters (m + n) := by
  rw [letters, letters, letters, ← String.ofList_append, List.replicate_append_replicate]

theorem letters_size (n : Nat) : (letters n).utf8ByteSize = n := by
  have ascii : ∀ c ∈ List.replicate n 'a', c.utf8Size = 1 := by
    intro c member
    rw [(List.mem_replicate.mp member).2]
    rfl
  rw [← length_toUTF8, letters, toUTF8_ofList ascii, List.length_map, List.length_replicate]

/-- The first `m` of `m + n` letters as the type, the others as the key. -/
def lettersId (m n : Nat) : AggregateId := ⟨⟨letters m⟩, letters n⟩

theorem lettersId_split (m n : Nat) : SplitAt (letters (m + n)) m (lettersId m n) :=
  ⟨letters_append m n, letters_size m⟩

/-- Two lengths with one digest collide on a text that is long enough for both. -/
theorem lettersId_collide {m n m' n' : Nat} (whole : m + n = m' + n') (same : ¬LengthsApart m m') :
    hashAggregateId (lettersId m n) = hashAggregateId (lettersId m' n') := by
  rw [(lettersId_split m n).hash, (lettersId_split m' n').hash, whole]
  exact fnv1a_append_inj.mpr (not_not.mp same)

/-- The lengths 56948505 and 67108869 have one digest. -/
theorem boundary_collides :
    ¬∀ (s : String) (i j : Nat) (a b : AggregateId), SplitAt s i a → SplitAt s j b → i < 2 ^ 32 →
      j < 2 ^ 32 → i ≠ j → hashAggregateId a ≠ hashAggregateId b := by
  intro never
  have whole : 56948505 + 10160364 = 67108869 + 0 := by decide
  have split := lettersId_split 56948505 10160364
  rw [whole] at split
  refine never _ _ _ _ _ split (lettersId_split 67108869 0) (by decide) (by decide) (by decide) ?_
  exact lettersId_collide whole (by decide)

end WeeEvents.Sqlite
