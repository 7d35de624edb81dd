import Mathlib

/-!
# Ulids

A ulid is a 128-bit number printed as 26 Crockford base-32 digits, most
significant first, so that the text order is the number order. The crate that
mints and parses them is not part of the repository: the printer is its
documented format, the parser a parameter that inverts it.
-/
namespace WeeEvents

abbrev Ulid := Fin (2 ^ 128)

instance Ulid.size_neZero : NeZero (2 ^ 128) := ⟨by norm_num⟩

def crockfordAlphabet : List Char := "0123456789ABCDEFGHJKMNPQRSTVWXYZ".toList

def crockfordDigit (d : Nat) : Char := crockfordAlphabet.getD d '0'

/-- The low `n` base-32 digits of a number, most significant first. -/
def crockfordDigits : Nat → Nat → List Char
  | 0, _ => []
  | n+1, value => crockfordDigit (value / 32 ^ n % 32) :: crockfordDigits n value

def Ulid.toText (u : Ulid) : String := String.ofList (crockfordDigits 26 u.val)

/-- The upper 48 bits: milliseconds since the epoch. -/
def Ulid.timestampMs (u : Ulid) : Nat := u.val / 2 ^ 80

inductive DecodeUlidError where
  | invalidLength
  | invalidChar
  deriving DecidableEq, Repr

/-- `Ulid::from_string`: whatever else it accepts, it reads a printed ulid back. -/
class UlidParser where
  fromString : String → Except DecodeUlidError Ulid
  fromString_toText : ∀ u : Ulid, fromString u.toText = .ok u

@[simp] theorem length_crockfordDigits (n value : Nat) :
    (crockfordDigits n value).length = n := by
  induction n with
  | zero => rfl
  | succ n ih => simp only [crockfordDigits, List.length_cons, ih]

theorem crockfordDigit_lt {d e : Nat} (hd : d < 32) (he : e < 32) :
    crockfordDigit d < crockfordDigit e ↔ d < e := by
  have table : ∀ d e : Fin 32, crockfordDigit d.val < crockfordDigit e.val ↔ d.val < e.val := by
    decide +kernel
  exact table ⟨d, hd⟩ ⟨e, he⟩

theorem crockfordDigit_ascii {d : Nat} (hd : d < 32) : (crockfordDigit d).utf8Size = 1 := by
  have table : ∀ d : Fin 32, (crockfordDigit d.val).utf8Size = 1 := by decide +kernel
  exact table ⟨d, hd⟩

theorem crockfordDigit_injective {d e : Nat} (hd : d < 32) (he : e < 32)
    (same : crockfordDigit d = crockfordDigit e) : d = e := by
  rcases Nat.lt_trichotomy d e with lt | eq | gt
  · exact absurd ((crockfordDigit_lt hd he).mpr lt) (by rw [same]; exact lt_irrefl _)
  · exact eq
  · exact absurd ((crockfordDigit_lt he hd).mpr gt) (by rw [same]; exact lt_irrefl _)

/-- Text order is number order, digit by digit from the most significant one. -/
theorem crockfordDigits_lt (n a b : Nat) :
    crockfordDigits n a < crockfordDigits n b ↔ a % 32 ^ n < b % 32 ^ n := by
  induction n with
  | zero => simp [crockfordDigits, Nat.mod_one]
  | succ n ih =>
      have hd : a / 32 ^ n % 32 < 32 := Nat.mod_lt _ (by decide)
      have he : b / 32 ^ n % 32 < 32 := Nat.mod_lt _ (by decide)
      have pos : 0 < 32 ^ n := Nat.pos_of_ne_zero (by simp)
      have ha := Nat.mod_lt a pos
      have hb := Nat.mod_lt b pos
      have split : ∀ x : Nat, x % 32 ^ (n+1) = x % 32 ^ n + 32 ^ n * (x / 32 ^ n % 32) :=
        fun x => Nat.mod_mul
      rw [crockfordDigits, crockfordDigits, List.cons_lt_cons_iff, crockfordDigit_lt hd he, ih,
        split a, split b]
      constructor
      · rintro (lead | ⟨same, rest⟩)
        · have := Nat.mul_le_mul_left (32 ^ n) (Nat.succ_le_of_lt lead)
          rw [Nat.mul_succ] at this
          omega
        · rw [crockfordDigit_injective hd he same]
          omega
      · intro lt
        rcases Nat.lt_trichotomy (a / 32 ^ n % 32) (b / 32 ^ n % 32) with lead | same | gt
        · exact .inl lead
        · rw [same] at lt
          exact .inr ⟨by rw [same], by omega⟩
        · have := Nat.mul_le_mul_left (32 ^ n) (Nat.succ_le_of_lt gt)
          rw [Nat.mul_succ] at this
          omega

theorem Ulid.toText_lt (u v : Ulid) : u.toText < v.toText ↔ u < v := by
  have bound : ∀ w : Ulid, w.val % 32 ^ 26 = w.val := fun w =>
    Nat.mod_eq_of_lt (Nat.lt_of_lt_of_le w.isLt (by norm_num))
  rw [String.lt_iff_toList_lt]
  simp only [Ulid.toText, String.toList_ofList, crockfordDigits_lt, bound, Fin.lt_def]

theorem Ulid.toText_strictMono : StrictMono Ulid.toText := fun u v lt =>
  (Ulid.toText_lt u v).mpr lt

theorem Ulid.toText_injective : Function.Injective Ulid.toText :=
  Ulid.toText_strictMono.injective

@[simp] theorem Ulid.length_toText (u : Ulid) : u.toText.length = 26 := by
  simp [Ulid.toText, String.length_ofList]

theorem utf8ByteSize_ofList_ascii {l : List Char} (ascii : ∀ c ∈ l, c.utf8Size = 1) :
    (String.ofList l).utf8ByteSize = l.length := by
  induction l with
  | nil => rfl
  | cons c l ih =>
      have head := ascii c (by simp)
      have tail := ih fun d member => ascii d (List.mem_cons_of_mem c member)
      rw [String.utf8ByteSize_ofList] at tail ⊢
      rw [String.utf8Len_cons, tail, head, List.length_cons]

theorem crockfordDigits_ascii (n value : Nat) :
    ∀ c ∈ crockfordDigits n value, c.utf8Size = 1 := by
  induction n with
  | zero => intro c member; cases member
  | succ n ih =>
      intro c member
      rcases List.mem_cons.mp member with rfl | later
      · exact crockfordDigit_ascii (Nat.mod_lt _ (by decide))
      · exact ih c later

@[simp] theorem Ulid.utf8ByteSize_toText (u : Ulid) : u.toText.utf8ByteSize = 26 := by
  rw [Ulid.toText, utf8ByteSize_ofList_ascii (crockfordDigits_ascii 26 u.val),
    length_crockfordDigits]

/-! ### A parser for printed ulids -/

def crockfordValue (c : Char) : Option Nat := crockfordAlphabet.idxOf? c

def decodeCrockford : Nat → List Char → Option Nat
  | value, [] => some value
  | value, c :: rest =>
      match crockfordValue c with
      | none => none
      | some d => decodeCrockford (value * 32 + d) rest

theorem crockfordValue_digit {d : Nat} (hd : d < 32) : crockfordValue (crockfordDigit d) = some d := by
  have table : ∀ d : Fin 32, crockfordValue (crockfordDigit d.val) = some d.val := by decide +kernel
  exact table ⟨d, hd⟩

theorem decodeCrockford_digits (n value acc : Nat) :
    decodeCrockford acc (crockfordDigits n value) = some (acc * 32 ^ n + value % 32 ^ n) := by
  induction n generalizing acc with
  | zero => simp [crockfordDigits, decodeCrockford, Nat.mod_one]
  | succ n ih =>
      have hd : value / 32 ^ n % 32 < 32 := Nat.mod_lt _ (by decide)
      simp only [crockfordDigits, decodeCrockford, crockfordValue_digit hd, ih]
      have split : value % 32 ^ (n+1) = value % 32 ^ n + 32 ^ n * (value / 32 ^ n % 32) :=
        Nat.mod_mul
      rw [split, pow_succ]
      congr 1
      ring

/-- The parser of the upper-case alphabet, which is all that a store writes. -/
@[reducible] def canonicalUlidParser : UlidParser where
  fromString s :=
    if s.length ≠ 26 then .error .invalidLength
    else match decodeCrockford 0 s.toList with
      | none => .error .invalidChar
      | some value => .ok (Fin.ofNat _ value)
  fromString_toText u := by
    have bound : u.val % 32 ^ 26 = u.val :=
      Nat.mod_eq_of_lt (Nat.lt_of_lt_of_le u.isLt (by norm_num))
    have digits : decodeCrockford 0 u.toText.toList = some u.val := by
      rw [Ulid.toText, String.toList_ofList, decodeCrockford_digits, bound, Nat.zero_mul,
        Nat.zero_add]
    simp only [Ulid.length_toText, ne_eq, not_true_eq_false, if_false, digits,
      Fin.ofNat_val_eq_self]

inductive MonotonicError where
  | overflow
  deriving DecidableEq, Repr

/-- A `ulid::Generator`, as the sequence of all its outcomes and how many have
been drawn. The ulids it does hand out are strictly increasing; when it refuses
is left open, and so is the order of one generator's ulids against another's. -/
structure Generator where
  outcome : Nat → Except MonotonicError Ulid
  drawn : Nat
  increasing : ∀ i j u v, i < j → outcome i = .ok u → outcome j = .ok v → u < v

def Generator.generate (g : Generator) : Except MonotonicError Ulid × Generator :=
  (g.outcome g.drawn, { g with drawn := g.drawn + 1 })

def Generator.advance (g : Generator) (n : Nat) : Generator := { g with drawn := g.drawn + n }

/-- The ulids from `first` on, one after the other, until they run out. -/
def Generator.countingFrom (first : Nat) : Generator where
  outcome i := if h : first + i < 2 ^ 128 then .ok ⟨first + i, h⟩ else .error .overflow
  drawn := 0
  increasing i j u v lt hu hv := by
    split at hu <;> cases hu
    split at hv <;> cases hv
    exact Fin.lt_def.mpr (Nat.add_lt_add_left lt first)

/-- A generator that refuses from the start. -/
def Generator.refusing : Generator where
  outcome _ := .error .overflow
  drawn := 0
  increasing i j u v lt hu hv := by cases hu

/-- The next two ulids of a generator: an event id and the revision after it. -/
structure Generator.Mints (g : Generator) (u v : Ulid) : Prop where
  eventId : g.outcome g.drawn = .ok u
  revision : g.outcome (g.drawn + 1) = .ok v

@[simp] theorem Generator.drawn_advance (g : Generator) (n : Nat) :
    (g.advance n).drawn = g.drawn + n := rfl

@[simp] theorem Generator.outcome_advance (g : Generator) (n : Nat) :
    (g.advance n).outcome = g.outcome := rfl

@[simp] theorem Generator.advance_zero (g : Generator) : g.advance 0 = g := rfl

@[simp] theorem Generator.advance_advance (g : Generator) (n m : Nat) :
    (g.advance n).advance m = g.advance (n + m) := by
  simp only [advance, Nat.add_assoc]

theorem Generator.Mints.lt {g : Generator} {u v : Ulid} (h : g.Mints u v) : u < v :=
  g.increasing _ _ u v (Nat.lt_succ_self _) h.eventId h.revision

/-- A revision is minted after an event id, so it is never the zero ulid. -/
theorem Generator.Mints.ne_zero {g : Generator} {u v : Ulid} (h : g.Mints u v) : v ≠ 0 :=
  fun zero => Fin.not_lt_zero u (zero ▸ h.lt)

end WeeEvents
