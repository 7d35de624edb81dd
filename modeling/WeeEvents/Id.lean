import WeeEvents.Ulid

/-!
# Identifiers

Revisions, aggregate identifiers and the opaque text identifiers, with their
printed and parsed forms. A revision carries the proof that its text is a
printed ulid, so the text order of two revisions is always meaningful.
-/
namespace WeeEvents

structure EventId where
  text : String
  deriving DecidableEq, Repr

structure EventType where
  text : String
  deriving DecidableEq, Repr

structure CorrelationId where
  text : String
  deriving DecidableEq, Repr

@[ext] structure AggregateType where
  text : String
  deriving DecidableEq, Repr

/-- Initial/zero revision: 26 zeros. -/
def zeroRevisionText : String := "00000000000000000000000000"

theorem zero_toText : Ulid.toText 0 = zeroRevisionText := by decide +kernel

/-- Revision marker for an event within an aggregate's stream. -/
@[ext] structure Revision where
  text : String
  valid : ∃ u : Ulid, u.toText = text

namespace Revision

instance : DecidableEq Revision := fun r s =>
  decidable_of_iff (r.text = s.text) ⟨Revision.ext, congrArg text⟩

/-- The derived order of the source: the order of the texts. -/
instance : LinearOrder Revision := LinearOrder.lift' text fun _ _ => Revision.ext

def fromUlid (u : Ulid) : Revision := ⟨u.toText, u, rfl⟩

def zero : Revision := ⟨zeroRevisionText, 0, zero_toText⟩

def isZero (r : Revision) : Bool := r.text == zeroRevisionText

inductive ParseError where
  | wrongLength (bytes : Nat)
  | invalidUlid (e : DecodeUlidError)
  deriving DecidableEq, Repr

def fromStr [UlidParser] (s : String) : Except ParseError Revision :=
  if s = zeroRevisionText then .ok zero
  else if s.utf8ByteSize ≠ 26 then .error (.wrongLength s.utf8ByteSize)
  else match UlidParser.fromString s with
    | .error e => .error (.invalidUlid e)
    | .ok u => .ok (fromUlid u)

@[simp] theorem text_fromUlid (u : Ulid) : (fromUlid u).text = u.toText := rfl

@[simp] theorem text_zero : zero.text = zeroRevisionText := rfl

theorem text_lt {r s : Revision} : r.text < s.text ↔ r < s := Iff.rfl

@[simp] theorem fromUlid_lt {u v : Ulid} : fromUlid u < fromUlid v ↔ u < v := Ulid.toText_lt u v

@[simp] theorem isZero_iff {r : Revision} : r.isZero = true ↔ r = zero := by
  rw [isZero, beq_iff_eq]
  exact ⟨fun same => Revision.ext same, fun same => congrArg text same⟩

theorem fromUlid_zero : fromUlid 0 = zero := Revision.ext zero_toText

theorem eq_fromUlid (r : Revision) : ∃ u, r = fromUlid u := by
  obtain ⟨text, u, rfl⟩ := r
  exact ⟨u, rfl⟩

theorem zero_le (r : Revision) : zero ≤ r := by
  obtain ⟨u, rfl⟩ := r.eq_fromUlid
  rw [← fromUlid_zero, ← not_lt, fromUlid_lt]
  exact Fin.not_lt_zero u

theorem fromUlid_ne_zero {u : Ulid} (nonzero : u ≠ 0) : fromUlid u ≠ zero := by
  rw [← fromUlid_zero]
  intro same
  exact nonzero (Ulid.toText_injective (congrArg text same))

/-- Every revision is read back from its own text, the zero text included. -/
@[simp] theorem fromStr_text [UlidParser] (r : Revision) : fromStr r.text = .ok r := by
  obtain ⟨u, rfl⟩ := r.eq_fromUlid
  rw [fromStr]
  split
  · next same => exact congrArg Except.ok (Revision.ext same.symm)
  · simp only [text_fromUlid, Ulid.utf8ByteSize_toText, ne_eq, not_true_eq_false, if_false,
      UlidParser.fromString_toText]

end Revision

theorem Generator.Mints.revision_ne_zero {g : Generator} {u v : Ulid} (h : g.Mints u v) :
    Revision.fromUlid v ≠ Revision.zero := Revision.fromUlid_ne_zero h.ne_zero

/-- Composite identifier for an aggregate: type and key. -/
structure AggregateId where
  aggregateType : AggregateType
  aggregateKey : String
  deriving DecidableEq, Repr

/-- `str::split_once`: what stands before and after the first `separator`. -/
def splitOnce (s : String) (separator : Char) : Option (String × String) :=
  match s.toList.dropWhile (· ≠ separator) with
  | [] => none
  | _ :: rest => some (String.ofList (s.toList.takeWhile (· ≠ separator)), String.ofList rest)

namespace AggregateId

def toText (id : AggregateId) : String := id.aggregateType.text ++ ":" ++ id.aggregateKey

inductive ParseError where
  | missingColon
  | emptyType
  | emptyKey
  deriving DecidableEq, Repr

def fromStr (s : String) : Except ParseError AggregateId :=
  match splitOnce s ':' with
  | none => .error .missingColon
  | some (aggType, aggKey) =>
      if aggType.isEmpty then .error .emptyType
      else if aggKey.isEmpty then .error .emptyKey
      else .ok ⟨⟨aggType⟩, aggKey⟩

/-- The identifiers `FromStr` can produce: a non-empty type without a colon and
a non-empty key. `new` builds others as well. -/
structure WellFormed (id : AggregateId) : Prop where
  type_ne_empty : id.aggregateType.text ≠ ""
  type_colon_free : ':' ∉ id.aggregateType.text.toList
  key_ne_empty : id.aggregateKey ≠ ""

instance (id : AggregateId) : Decidable id.WellFormed :=
  decidable_of_iff (id.aggregateType.text ≠ "" ∧ ':' ∉ id.aggregateType.text.toList ∧
    id.aggregateKey ≠ "") ⟨fun h => ⟨h.1, h.2.1, h.2.2⟩, fun h => ⟨h.1, h.2, h.3⟩⟩

end AggregateId

theorem splitOnce_append {before after : String} {separator : Char}
    (absent : separator ∉ before.toList) :
    splitOnce (before ++ String.singleton separator ++ after) separator = some (before, after) := by
  have keep : ∀ c ∈ before.toList, decide (c ≠ separator) = true := by
    intro c member
    exact decide_eq_true (fun same => absent (same ▸ member))
  have stop : (separator :: after.toList).dropWhile (· ≠ separator) = separator :: after.toList := by
    simp
  have none_taken : (separator :: after.toList).takeWhile (· ≠ separator) = [] := by simp
  rw [splitOnce]
  simp only [String.toList_append, String.toList_singleton, List.append_assoc,
    List.singleton_append, List.dropWhile_append_of_pos keep, List.takeWhile_append_of_pos keep,
    stop, none_taken, List.append_nil, String.ofList_toList]

theorem AggregateId.fromStr_toText {id : AggregateId} (wf : id.WellFormed) :
    fromStr id.toText = .ok id := by
  have cut : splitOnce (id.aggregateType.text ++ String.singleton ':' ++ id.aggregateKey) ':' =
      some (id.aggregateType.text, id.aggregateKey) := splitOnce_append wf.type_colon_free
  have colon : String.singleton ':' = ":" := by decide
  rw [colon] at cut
  simp only [fromStr, toText, cut, String.isEmpty_iff, wf.type_ne_empty, wf.key_ne_empty, if_false]

end WeeEvents
