import WeeEvents.Id

/-!
# The text forms of identifiers

Revisions and aggregate identifiers travel as text: object keys, partition names
and the columns that are compared to find a conflict. What the texts say about
the values, for every value and every text.
-/
namespace WeeEvents

/-! ### Revisions -/

/-- The order of the texts, on which every conflict check rests, is the order of the ulids, and
every printed revision is read back, the zero text included. -/
theorem Revision.text_order_is_ulid_order [UlidParser] (u v : Ulid) :
    (fromUlid u < fromUlid v ↔ u < v) ∧ ((fromUlid u).text < (fromUlid v).text ↔ u < v) ∧
      (fromUlid u = fromUlid v ↔ u = v) ∧ ((fromUlid u).isZero = true ↔ u = 0) ∧
      fromStr (fromUlid u).text = .ok (fromUlid u) := by
  have injective : fromUlid u = fromUlid v ↔ u = v := by
    constructor
    · intro same
      exact Ulid.toText_injective (congrArg Revision.text same)
    · rintro rfl
      rfl
  refine ⟨fromUlid_lt, ?_, injective, ?_, fromStr_text _⟩
  · rw [text_lt, fromUlid_lt]
  · rw [isZero_iff]
    constructor
    · intro zero
      by_contra nonzero
      exact fromUlid_ne_zero nonzero zero
    · rintro rfl
      exact fromUlid_zero

/-! ### Aggregate identifiers -/

/-- What stands before and after the first colon of a text. -/
structure FirstColon (s aggType aggKey : String) : Prop where
  whole : s = aggType ++ ":" ++ aggKey
  first : ':' ∉ aggType.toList

theorem FirstColon.splitOnce {s aggType aggKey : String} (h : FirstColon s aggType aggKey) :
    splitOnce s ':' = some (aggType, aggKey) := by
  rw [h.whole]
  exact splitOnce_append h.first

/-- A text has a first colon, or none at all. -/
theorem firstColon_of_mem {s : String} (colon : ':' ∈ s.toList) :
    ∃ aggType aggKey, FirstColon s aggType aggKey := by
  obtain ⟨before, after, split, first⟩ := List.eq_append_cons_of_mem colon
  refine ⟨String.ofList before, String.ofList after, ?_, ?_⟩
  · apply String.toList_inj.mp
    simp [split]
  · rwa [String.toList_ofList]

theorem splitOnce_eq_none {s : String} (absent : ':' ∉ s.toList) : splitOnce s ':' = none := by
  rw [WeeEvents.splitOnce, List.dropWhile_eq_nil_iff.mpr]
  intro c member
  exact decide_eq_true fun same => absent (same ▸ member)

namespace AggregateId

/-- How `FromStr` answers, by the first colon. -/
theorem fromStr_of_firstColon {s aggType aggKey : String} (h : FirstColon s aggType aggKey) :
    fromStr s =
      if aggType = "" then .error .emptyType
      else if aggKey = "" then .error .emptyKey
      else .ok ⟨⟨aggType⟩, aggKey⟩ := by
  rw [fromStr, h.splitOnce]
  simp only [String.isEmpty_iff]

theorem fromStr_of_no_colon {s : String} (absent : ':' ∉ s.toList) :
    fromStr s = .error .missingColon := by
  rw [fromStr, splitOnce_eq_none absent]

theorem fromStr_missingColon_iff {s : String} :
    fromStr s = .error .missingColon ↔ ':' ∉ s.toList := by
  constructor
  · intro missing colon
    obtain ⟨aggType, aggKey, here⟩ := firstColon_of_mem colon
    rw [fromStr_of_firstColon here] at missing
    split at missing
    · cases missing
    · split at missing <;> cases missing
  · exact fromStr_of_no_colon

/-- Every other answer comes from a first colon. -/
theorem firstColon_of_fromStr {s : String} {r : Except ParseError AggregateId}
    (answer : fromStr s = r) (colon : r ≠ .error .missingColon) :
    ∃ aggType aggKey, FirstColon s aggType aggKey ∧
      r = if aggType = "" then .error .emptyType
        else if aggKey = "" then .error .emptyKey
        else .ok ⟨⟨aggType⟩, aggKey⟩ := by
  subst answer
  rw [ne_eq, fromStr_missingColon_iff, not_not] at colon
  obtain ⟨aggType, aggKey, here⟩ := firstColon_of_mem colon
  exact ⟨aggType, aggKey, here, fromStr_of_firstColon here⟩

theorem fromStr_emptyType_iff {s : String} :
    fromStr s = .error .emptyType ↔ ∃ aggKey, FirstColon s "" aggKey := by
  constructor
  · intro answer
    obtain ⟨aggType, aggKey, here, same⟩ := firstColon_of_fromStr answer (by simp)
    by_cases noType : aggType = ""
    · subst noType
      exact ⟨aggKey, here⟩
    · rw [if_neg noType] at same
      split at same <;> cases same
  · rintro ⟨aggKey, here⟩
    rw [fromStr_of_firstColon here, if_pos rfl]

theorem fromStr_emptyKey_iff {s : String} :
    fromStr s = .error .emptyKey ↔ ∃ aggType, aggType ≠ "" ∧ FirstColon s aggType "" := by
  constructor
  · intro answer
    obtain ⟨aggType, aggKey, here, same⟩ := firstColon_of_fromStr answer (by simp)
    split at same
    · cases same
    · next someType =>
        split at same
        · next noKey =>
            subst noKey
            exact ⟨aggType, someType, here⟩
        · cases same
  · rintro ⟨aggType, someType, here⟩
    rw [fromStr_of_firstColon here, if_neg someType, if_pos rfl]

theorem fromStr_ok_iff {s : String} {id : AggregateId} :
    fromStr s = .ok id ↔
      FirstColon s id.aggregateType.text id.aggregateKey ∧ id.aggregateType.text ≠ "" ∧
        id.aggregateKey ≠ "" := by
  constructor
  · intro answer
    obtain ⟨aggType, aggKey, here, same⟩ := firstColon_of_fromStr answer (by simp)
    split at same
    · cases same
    · next someType =>
        split at same
        · cases same
        · next someKey =>
            cases same
            exact ⟨here, someType, someKey⟩
  · rintro ⟨here, someType, someKey⟩
    rw [fromStr_of_firstColon here, if_neg someType, if_neg someKey]

/-- Parsing answers by the first colon, what it accepts prints back as the text it was read
from, and every well-formed identifier is read back from its printed form. -/
theorem text_format (s : String) :
    ((∃ id, fromStr s = .ok id) ↔
      ∃ aggType aggKey, FirstColon s aggType aggKey ∧ aggType ≠ "" ∧ aggKey ≠ "") ∧
    (fromStr s = .error .missingColon ↔ ':' ∉ s.toList) ∧
    (fromStr s = .error .emptyType ↔ ∃ aggKey, FirstColon s "" aggKey) ∧
    (fromStr s = .error .emptyKey ↔ ∃ aggType, aggType ≠ "" ∧ FirstColon s aggType "") ∧
    (∀ id, fromStr s = .ok id → id.toText = s ∧ id.WellFormed) ∧
    (∀ id : AggregateId, id.WellFormed → fromStr id.toText = .ok id) ∧
    Set.InjOn toText {id | id.WellFormed} := by
  refine ⟨?_, fromStr_missingColon_iff, fromStr_emptyType_iff, fromStr_emptyKey_iff, ?_,
    fun id => fromStr_toText, ?_⟩
  · constructor
    · rintro ⟨id, answer⟩
      exact ⟨_, _, fromStr_ok_iff.mp answer⟩
    · rintro ⟨aggType, aggKey, parts⟩
      exact ⟨⟨⟨aggType⟩, aggKey⟩, fromStr_ok_iff.mpr parts⟩
  · intro id answer
    obtain ⟨here, someType, someKey⟩ := fromStr_ok_iff.mp answer
    exact ⟨here.whole.symm, someType, here.first, someKey⟩
  · intro id wf id' wf' same
    have back := fromStr_toText wf
    rw [same, fromStr_toText wf'] at back
    exact (Except.ok.inj back).symm

/-- A key with colons of its own. -/
theorem key_with_colons_round_trips :
    fromStr "campaign:run:01ABC:phase-2" = .ok ⟨⟨"campaign"⟩, "run:01ABC:phase-2"⟩ ∧
      toText ⟨⟨"campaign"⟩, "run:01ABC:phase-2"⟩ = "campaign:run:01ABC:phase-2" := by
  have wf : (⟨⟨"campaign"⟩, "run:01ABC:phase-2"⟩ : AggregateId).WellFormed := by decide
  have back := (text_format "campaign:run:01ABC:phase-2").2.2.2.2.2.1 _ wf
  have printed : toText ⟨⟨"campaign"⟩, "run:01ABC:phase-2"⟩ = "campaign:run:01ABC:phase-2" := by
    decide
  rw [printed] at back
  exact ⟨back, printed⟩

end AggregateId
end WeeEvents
