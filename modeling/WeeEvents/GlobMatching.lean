import WeeEvents.Foundation.Glob
import WeeEvents.Renderer

/-!
# What the glob matcher accepts

The loop remembers the last star only, and tries a letter of the pattern before
it reads that letter as a star. Its invariant says that the remembered star
loses nothing: whatever a forgotten one could still find, the last one finds.
-/
namespace WeeEvents

open Foundation.Glob

/-- The byte `*`. -/
abbrev star : UInt8 := '*'.toUInt8

namespace GlobState

variable {pattern text : List UInt8} {s t : GlobState} {b : UInt8}

/-- The pattern after the remembered star has been met letter by letter from the
remembered position of the text. -/
def Aligned (pattern text : List UInt8) (s : GlobState) : Prop :=
  ∀ k, s.starIdx = some k → ∃ u,
    pattern.drop (k + 1) = u ++ pattern.drop s.patternIdx ∧
      text.drop s.starTextIdx = u ++ text.drop s.textIdx

/-- What the loop still has to find out: without a remembered star, whether the
rest of the pattern fits the rest of the text; with one, whether the pattern
after it fits some end of the text. -/
def Pending (pattern text : List UInt8) (s : GlobState) : Prop :=
  match s.starIdx with
  | none => Keeps star (pattern.drop s.patternIdx) (text.drop s.textIdx)
  | some k => ∃ v, v <:+ text.drop s.starTextIdx ∧ Keeps star (pattern.drop (k + 1)) v

theorem drop_of_getElem? {l : List UInt8} {i : Nat} (at_i : l[i]? = some b) :
    l.drop i = b :: l.drop (i + 1) := by
  obtain ⟨inside, rfl⟩ := List.getElem?_eq_some_iff.mp at_i
  exact List.drop_eq_getElem_cons inside

/-- At a byte that is neither the pattern's nor taken by a star, the rest of the
pattern does not fit. -/
theorem stuck (letter : pattern[s.patternIdx]? ≠ some b)
    (found : pattern[s.patternIdx]? ≠ some star) (byte : text[s.textIdx]? = some b) :
    ¬ Keeps star (pattern.drop s.patternIdx) (text.drop s.textIdx) := by
  rw [drop_of_getElem? byte]
  cases next : pattern[s.patternIdx]? with
  | none =>
      rw [List.drop_eq_nil_of_le (List.getElem?_eq_none_iff.mp next)]
      simp
  | some c =>
      rw [drop_of_getElem? next]
      rw [next] at letter found
      exact keeps_cons_ne (fun h => letter (by rw [h])) (fun h => found (by rw [h]))

/-- Meeting a letter extends the word met since the remembered star. -/
theorem turn_letter (byte : text[s.textIdx]? = some b)
    (letter : pattern[s.patternIdx]? = some b) (aligned : Aligned pattern text s)
    (moved : t.patternIdx = s.patternIdx + 1 ∧ t.textIdx = s.textIdx + 1)
    (same : t.starIdx = s.starIdx ∧ t.starTextIdx = s.starTextIdx) :
    Aligned pattern text t ∧ (Pending pattern text s ↔ Pending pattern text t) := by
  have patternRest := drop_of_getElem? letter
  have textRest := drop_of_getElem? byte
  constructor
  · intro k remembered
    rw [same.1] at remembered
    obtain ⟨u, met, read⟩ := aligned k remembered
    refine ⟨u ++ [b], ?_, ?_⟩
    · rw [met, patternRest, moved.1, List.append_assoc, List.singleton_append]
    · rw [same.2, read, textRest, moved.2, List.append_assoc, List.singleton_append]
  · unfold Pending
    rw [same.1, same.2, moved.1, moved.2]
    cases s.starIdx with
    | some k => exact Iff.rfl
    | none =>
        simp only [patternRest, textRest]
        exact keeps_cons_self

/-- Remembering a new star forgets the old one without losing a match. -/
theorem turn_star (byte : text[s.textIdx]? = some b) (other : b ≠ star)
    (found : pattern[s.patternIdx]? = some star) (aligned : Aligned pattern text s)
    (moved : t.patternIdx = s.patternIdx + 1 ∧ t.textIdx = s.textIdx)
    (remember : t.starIdx = some s.patternIdx ∧ t.starTextIdx = s.textIdx) :
    Aligned pattern text t ∧ (Pending pattern text s ↔ Pending pattern text t) := by
  have patternRest := drop_of_getElem? found
  have textRest := drop_of_getElem? byte
  constructor
  · intro k remembered
    rw [remember.1] at remembered
    cases remembered
    refine ⟨[], ?_, ?_⟩
    · rw [moved.1, List.nil_append]
    · rw [remember.2, moved.2, List.nil_append]
  · have after : Pending pattern text t ↔
        ∃ v, v <:+ text.drop s.textIdx ∧ Keeps star (pattern.drop (s.patternIdx + 1)) v := by
      unfold Pending
      rw [remember.1, remember.2]
    rw [after]
    unfold Pending
    cases remembered : s.starIdx with
    | none =>
        simp only [patternRest, textRest]
        exact keeps_wild other
    | some k =>
        obtain ⟨u, met, read⟩ := aligned k remembered
        simp only [met, read, patternRest]
        constructor
        · rintro ⟨v, suffix, keeps⟩
          obtain ⟨v', later, rest⟩ := keeps.later suffix
          obtain ⟨v'', further, rest⟩ := rest.after_wild
          exact ⟨v'', further.trans later, rest⟩
        · rintro ⟨v, suffix, keeps⟩
          refine ⟨_, List.suffix_refl _, keeps_append_self.mpr ?_⟩
          rw [textRest] at suffix ⊢
          exact (keeps_wild other).mpr ⟨v, suffix, keeps⟩

/-- Going back to the star gives up a position at which the pattern does not fit. -/
theorem turn_back {k : Nat} (letter : pattern[s.patternIdx]? ≠ some b)
    (found : pattern[s.patternIdx]? ≠ some star) (byte : text[s.textIdx]? = some b)
    (aligned : Aligned pattern text s) (remembered : s.starIdx = some k)
    (moved : t.patternIdx = k + 1 ∧ t.textIdx = s.starTextIdx + 1)
    (remember : t.starIdx = some k ∧ t.starTextIdx = s.starTextIdx + 1) :
    Aligned pattern text t ∧ (Pending pattern text s ↔ Pending pattern text t) := by
  constructor
  · intro j same
    rw [remember.1] at same
    cases same
    refine ⟨[], ?_, ?_⟩
    · rw [moved.1, List.nil_append]
    · rw [remember.2, moved.2, List.nil_append]
  · obtain ⟨u, met, read⟩ := aligned k remembered
    have unfit : ¬ Keeps star (pattern.drop (k + 1)) (text.drop s.starTextIdx) := by
      rw [met, read, keeps_append_self]
      exact stuck letter found byte
    unfold Pending
    rw [remembered, remember.1, remember.2]
    constructor
    · rintro ⟨v, suffix, keeps⟩
      have inside : s.starTextIdx < text.length := by
        have here := (List.getElem?_eq_some_iff.mp byte).1
        have before := s.remembered
        omega
      rw [List.drop_eq_getElem_cons inside] at suffix unfit
      rcases List.suffix_cons_iff.mp suffix with rfl | shorter
      · exact absurd keeps unfit
      · exact ⟨v, shorter, keeps⟩
    · rintro ⟨v, suffix, keeps⟩
      have shift : text.drop (s.starTextIdx + 1) <:+ text.drop s.starTextIdx := by
        rw [← List.drop_drop]
        exact List.drop_suffix 1 _
      exact ⟨v, suffix.trans shift, keeps⟩

/-- A turn keeps the alignment and the question. -/
theorem turn_some (byte : text[s.textIdx]? = some b) (aligned : Aligned pattern text s)
    (turned : s.turn pattern b = some t) :
    Aligned pattern text t ∧ (Pending pattern text s ↔ Pending pattern text t) := by
  unfold turn at turned
  split at turned
  · next letter =>
      cases turned
      exact turn_letter byte letter aligned ⟨rfl, rfl⟩ ⟨rfl, rfl⟩
  · next letter =>
      split at turned
      · next found =>
          have other : b ≠ star := by
            intro same
            exact letter (same ▸ found)
          cases turned
          exact turn_star byte other found aligned ⟨rfl, rfl⟩ ⟨rfl, rfl⟩
      · next found =>
          split at turned
          · next k remembered =>
              cases turned
              exact turn_back letter found byte aligned remembered ⟨rfl, rfl⟩ ⟨rfl, rfl⟩
          · cases turned

/-- The loop gives up only where nothing fits. -/
theorem turn_none (byte : text[s.textIdx]? = some b) (failed : s.turn pattern b = none) :
    ¬ Pending pattern text s := by
  unfold turn at failed
  split at failed
  · cases failed
  · next letter =>
      split at failed
      · cases failed
      · next found =>
          split at failed
          · cases failed
          · next forgotten =>
              unfold Pending
              rw [forgotten]
              exact stuck letter found byte

/-- At the end of the text the rest of the pattern has to be stars. -/
theorem pending_done (done : text.length ≤ s.textIdx) (aligned : Aligned pattern text s) :
    Pending pattern text s ↔ ∀ c ∈ pattern.drop s.patternIdx, c = star := by
  have nothing : text.drop s.textIdx = [] := List.drop_eq_nil_of_le done
  rw [← keeps_empty]
  unfold Pending
  cases remembered : s.starIdx with
  | none => simp only [nothing]
  | some k =>
      obtain ⟨u, met, read⟩ := aligned k remembered
      rw [nothing] at read
      simp only [met, read]
      constructor
      · rintro ⟨v, suffix, keeps⟩
        obtain ⟨v', later, rest⟩ := keeps.later suffix
        rw [List.suffix_nil.mp later] at rest
        exact rest
      · intro rest
        exact ⟨_, List.suffix_refl _, keeps_append_self.mpr rest⟩

end GlobState

/-- The whole loop answers the question it starts with. -/
theorem globLoop_spec {pattern text : List UInt8} {s : GlobState}
    (aligned : s.Aligned pattern text) :
    s.Pending pattern text ↔
      ∃ i, globLoop pattern text s = some i ∧ ∀ c ∈ pattern.drop i, c = star := by
  fun_induction globLoop pattern text s with
  | case1 s inside failed =>
      simpa using GlobState.turn_none (List.getElem?_eq_getElem inside) failed
  | case2 s inside t turned ih =>
      obtain ⟨kept, same⟩ :=
        GlobState.turn_some (List.getElem?_eq_getElem inside) aligned turned
      exact same.trans (ih kept)
  | case3 s past =>
      simpa using GlobState.pending_done (Nat.le_of_not_lt past) aligned

/-- Exactly the texts the code accepts. -/
theorem globMatches_iff_keeps (pattern text : List UInt8) :
    globMatches pattern text = true ↔ Keeps star pattern text := by
  have start : GlobState.start.Aligned pattern text := by
    intro k remembered
    cases remembered
  have spec := globLoop_spec start
  have question : GlobState.start.Pending pattern text ↔ Keeps star pattern text := Iff.rfl
  rw [← question, spec]
  unfold globMatches
  cases globLoop pattern text .start <;> simp

/-- On a text without a `*` the matcher says what the pattern means. -/
theorem globMatches_of_no_star {pattern text : List UInt8} (absent : star ∉ text) :
    globMatches pattern text = true ↔ Fills star pattern text := by
  rw [globMatches_iff_keeps]
  constructor
  · exact Keeps.fills
  · exact Fills.keeps absent

/-- A glob rule takes the event types its pattern describes, as long as their names have no `*`. -/
theorem EventPattern.matches_glob {pattern : String} {eventType : EventType}
    (absent : star ∉ eventType.text.toUTF8.data.toList) :
    (EventPattern.glob pattern).matches eventType = true ↔
      Fills star pattern.toUTF8.data.toList eventType.text.toUTF8.data.toList :=
  globMatches_of_no_star absent

/-- The matcher never accepts too much, and it accepts all the pattern describes
exactly where each star that falls on a `*` of the text can stand for that byte alone. -/
theorem glob_matches_meaning_iff (pattern text : List UInt8) :
    (globMatches pattern text = true ↔ Fills star pattern text) ↔
      (Fills star pattern text → Keeps star pattern text) := by
  rw [globMatches_iff_keeps]
  constructor
  · intro meaning
    exact meaning.mpr
  · intro enough
    exact ⟨Keeps.fills, enough⟩

/-- The pattern `*` describes the text `*a` and does not accept it: the loop spends
the star on the byte `*`. -/
theorem starred_text_refused : ¬ ∀ pattern text : List UInt8, pattern ≠ [] →
    (globMatches pattern text = true ↔ Fills star pattern text) := by
  intro meaning
  have described : Fills star [star] [star, 'a'.toUInt8] :=
    Fills.hole [star, 'a'.toUInt8] .nil
  have accepted := (meaning [star] [star, 'a'.toUInt8] (by simp)).mpr described
  rw [globMatches_iff_keeps, keeps_cons_self] at accepted
  simp at accepted

end WeeEvents
