import Mathlib
import WeeEvents.Sqlite.Catalogs

/-!
# The base-32 coder

RFC 4648 upper-case base 32 without padding, bit by bit: one coder that decodes
what it encodes. It stands for the third-party one on concrete inputs.
-/
namespace WeeEvents.Sqlite

theorem byteArray_toList (bytes : ByteArray) : bytes.toList = bytes.data.toList := by
  have length : bytes.data.toList.length = bytes.size := rfl
  have loop : ∀ left i (acc : List UInt8), bytes.size - i = left → i ≤ bytes.size →
      ByteArray.toList.loop bytes i acc = acc.reverse ++ bytes.data.toList.drop i := by
    intro left
    induction left with
    | zero =>
        intro i acc none inside
        rw [ByteArray.toList.loop, if_neg (by omega), List.drop_eq_nil_of_le (by omega),
          List.append_nil]
    | succ left ih =>
        intro i acc more inside
        have here : i < bytes.data.toList.length := by omega
        rw [ByteArray.toList.loop, if_pos (by omega), ih (i + 1) _ (by omega) (by omega),
          List.drop_eq_getElem_cons here, List.reverse_cons, List.append_assoc]
        have byte : bytes.get! i = bytes.data.toList[i] := by
          rw [Array.getElem_toList]
          exact getElem!_pos bytes.data i here
        rw [byte, List.singleton_append]
  have whole := loop bytes.size 0 [] rfl (Nat.zero_le _)
  simpa [ByteArray.toList] using whole

/-- The bytes of an ASCII text are its characters. -/
theorem toUTF8_ofList {chars : List Char} (ascii : ∀ c ∈ chars, c.utf8Size = 1) :
    (String.ofList chars).toUTF8.toList = chars.map fun c => c.val.toUInt8 := by
  have encoded : chars.utf8Encode = (chars.map fun c => c.val.toUInt8).toByteArray := by
    rw [List.utf8Encode]
    congr 1
    induction chars with
    | nil => rfl
    | cons c chars ih =>
        rw [List.flatMap_cons, String.utf8EncodeChar_eq_singleton (ascii c (List.mem_cons_self ..)),
          ih fun c' member => ascii c' (List.mem_cons_of_mem _ member)]
        rfl
  have bytes : (String.ofList chars).toUTF8 = chars.utf8Encode := rfl
  rw [bytes, encoded, byteArray_toList, List.toList_data_toByteArray]

/-! ### Bits -/

/-- The bits of a byte, the highest first. -/
def byteBits (byte : UInt8) : List Bool :=
  [byte.toNat.testBit 7, byte.toNat.testBit 6, byte.toNat.testBit 5, byte.toNat.testBit 4,
    byte.toNat.testBit 3, byte.toNat.testBit 2, byte.toNat.testBit 1, byte.toNat.testBit 0]

/-- The number that bits spell, the highest first. -/
def bitsValue (bits : List Bool) : Nat := bits.foldl (fun value bit => 2 * value + bit.toNat) 0

theorem bitsValue_byteBits (byte : UInt8) : UInt8.ofNat (bitsValue (byteBits byte)) = byte := by
  have each : ∀ n : Fin 256, UInt8.ofNat (bitsValue (byteBits (UInt8.ofNat n))) = UInt8.ofNat n := by
    decide +kernel
  have here := each ⟨byte.toNat, byte.toNat_lt⟩
  simpa using here

/-- Groups of eight bits, as bytes; fewer than eight at the end are left out. -/
def octets : List Bool → List UInt8
  | a :: b :: c :: d :: e :: f :: g :: h :: rest =>
      UInt8.ofNat (bitsValue [a, b, c, d, e, f, g, h]) :: octets rest
  | _ => []

/-- Groups of five bits, the last one filled up with zeros. -/
def quintets : List Bool → List (List Bool)
  | [] => []
  | [a] => [[a, false, false, false, false]]
  | [a, b] => [[a, b, false, false, false]]
  | [a, b, c] => [[a, b, c, false, false]]
  | [a, b, c, d] => [[a, b, c, d, false]]
  | a :: b :: c :: d :: e :: rest => [a, b, c, d, e] :: quintets rest

theorem quintets_length (bits : List Bool) : ∀ quintet ∈ quintets bits, quintet.length = 5 := by
  fun_induction quintets bits with
  | case1 => simp
  | case2 => simp
  | case3 => simp
  | case4 => simp
  | case5 => simp
  | case6 a b c d e rest ih =>
      intro quintet member
      rcases List.mem_cons.mp member with rfl | later
      · rfl
      · exact ih quintet later

theorem quintets_flatten (bits : List Bool) :
    ∃ filling, (quintets bits).flatten = bits ++ filling ∧ filling.length < 5 := by
  fun_induction quintets bits with
  | case1 => exact ⟨[], rfl, by decide⟩
  | case2 a => exact ⟨[false, false, false, false], rfl, by decide⟩
  | case3 a b => exact ⟨[false, false, false], rfl, by decide⟩
  | case4 a b c => exact ⟨[false, false], rfl, by decide⟩
  | case5 a b c d => exact ⟨[false], rfl, by decide⟩
  | case6 a b c d e rest ih =>
      obtain ⟨filling, same, short⟩ := ih
      exact ⟨filling, by simp [same], short⟩

theorem octets_short {bits : List Bool} (short : bits.length < 8) : octets bits = [] := by
  unfold octets
  split
  · simp only [List.length_cons] at short
    omega
  · rfl

theorem octets_bits (bytes : List UInt8) {filling : List Bool} (short : filling.length < 8) :
    octets (bytes.flatMap byteBits ++ filling) = bytes := by
  induction bytes with
  | nil => exact octets_short short
  | cons byte bytes ih =>
      rw [List.flatMap_cons, List.append_assoc]
      have first := bitsValue_byteBits byte
      simp only [byteBits, List.cons_append, List.nil_append, octets] at first ⊢
      rw [first, ih]

/-! ### Letters -/

def base32Alphabet : List Char :=
  ['A', 'B', 'C', 'D', 'E', 'F', 'G', 'H', 'I', 'J', 'K', 'L', 'M', 'N', 'O', 'P',
    'Q', 'R', 'S', 'T', 'U', 'V', 'W', 'X', 'Y', 'Z', '2', '3', '4', '5', '6', '7']

/-- The letter of five bits. -/
def base32Letter (quintet : List Bool) : Char := base32Alphabet.getD (bitsValue quintet) 'A'

/-- The five bits of a number. -/
def fiveBits (value : Nat) : List Bool :=
  [value.testBit 4, value.testBit 3, value.testBit 2, value.testBit 1, value.testBit 0]

def base32Bits (byte : UInt8) : Option (List Bool) :=
  (base32Alphabet.findIdx? fun c => c.val.toUInt8 == byte).map fiveBits

theorem base32Letter_spec (a b c d e : Bool) :
    base32Letter [a, b, c, d, e] ∈ base32Alphabet ∧
      base32Bits (base32Letter [a, b, c, d, e]).val.toUInt8 = some [a, b, c, d, e] := by
  revert a b c d e
  decide +kernel

theorem letter_of_quintet {quintet : List Bool} (five : quintet.length = 5) :
    base32Letter quintet ∈ base32Alphabet ∧
      base32Bits (base32Letter quintet).val.toUInt8 = some quintet := by
  match quintet, five with
  | [a, b, c, d, e], _ => exact base32Letter_spec a b c d e

def encodeBase32 (bytes : List UInt8) : String :=
  String.ofList ((quintets (bytes.flatMap byteBits)).map base32Letter)

def decodeBase32 (text : List UInt8) : Except String (List UInt8) :=
  match text.mapM base32Bits with
  | none => .error "invalid symbol"
  | some groups => .ok (octets groups.flatten)

theorem mapM_letters {groups : List (List Bool)} (five : ∀ quintet ∈ groups, quintet.length = 5) :
    (groups.map fun quintet => (base32Letter quintet).val.toUInt8).mapM base32Bits = some groups := by
  induction groups with
  | nil => rfl
  | cons quintet groups ih =>
      rw [List.map_cons, List.mapM_cons, (letter_of_quintet (five quintet (List.mem_cons_self ..))).2,
        ih fun other member => five other (List.mem_cons_of_mem _ member)]
      rfl

theorem base32Alphabet_ascii : ∀ c ∈ base32Alphabet, c.utf8Size = 1 := by
  intro c member
  fin_cases member <;> rfl

@[reducible] def canonicalBase32 : Base32Nopad where
  encode := encodeBase32
  decode := decodeBase32
  decode_encode bytes := by
    have five := quintets_length (bytes.flatMap byteBits)
    have ascii : ∀ c ∈ (quintets (bytes.flatMap byteBits)).map base32Letter, c.utf8Size = 1 := by
      intro c member
      obtain ⟨quintet, inside, rfl⟩ := List.mem_map.mp member
      exact base32Alphabet_ascii _ (letter_of_quintet (five quintet inside)).1
    obtain ⟨filling, flatten, short⟩ := quintets_flatten (bytes.flatMap byteBits)
    rw [encodeBase32, toUTF8_ofList ascii, List.map_map, decodeBase32]
    rw [show (fun c : Char => c.val.toUInt8) ∘ base32Letter =
      fun quintet => (base32Letter quintet).val.toUInt8 from rfl, mapM_letters five]
    dsimp only
    rw [flatten, octets_bits bytes (by omega)]
  alphabet bytes c member := by
    rw [encodeBase32, String.toList_ofList] at member
    obtain ⟨quintet, inside, rfl⟩ := List.mem_map.mp member
    have letter := (letter_of_quintet (quintets_length _ quintet inside)).1
    have known : ∀ c ∈ base32Alphabet, c.isUpper ∨ c ∈ "234567".toList := by
      simp [base32Alphabet]
    exact known _ letter

end WeeEvents.Sqlite
