import WeeEvents.Foundation.Stepping
import WeeEvents.GlobMatching

/-!
# The glob matcher ends, inside its two slices

The function statement by statement, with the bare positions it keeps; a byte
read past the end of a slice goes wrong. Going back to the remembered star moves
both positions back, but the star has moved on in the text: the text behind it,
and then the pattern left, measure the loop.
-/
namespace WeeEvents

open Foundation

/-- The variables of `glob_matches`. -/
structure GlobCursor where
  patternIdx : Nat
  textIdx : Nat
  starIdx : Option Nat
  starTextIdx : Nat
  deriving DecidableEq, Repr

/-- Where `glob_matches` is: at the head of its first loop, at the head of its
second, or past a return. -/
inductive GlobPoint where
  | matching (cursor : GlobCursor)
  | trailing (patternIdx : Nat)
  | returned (answer : Bool)
  deriving DecidableEq, Repr

/-- `bytes[i]`, which panics past the end. -/
def byteAt (bytes : List UInt8) (i : Nat) : Option UInt8 := bytes[i]?

/-- `a && b`: the second operand is evaluated only where the first holds. -/
def shortAnd (a : Bool) (b : Option Bool) : Option Bool := if a then b else some false

namespace GlobPoint

def start : GlobPoint := .matching ⟨0, 0, none, 0⟩

/-- One turn of the loop the function is at, or what follows that loop. -/
def step (pattern text : List UInt8) : GlobPoint → Option GlobPoint
  | .matching c =>
      if c.textIdx < text.length then do
        if ← shortAnd (c.patternIdx < pattern.length)
            (do return (← byteAt pattern c.patternIdx) == (← byteAt text c.textIdx)) then
          return .matching { c with
            patternIdx := c.patternIdx + 1
            textIdx := c.textIdx + 1 }
        else if ← shortAnd (c.patternIdx < pattern.length)
            (do return (← byteAt pattern c.patternIdx) == '*'.toUInt8) then
          return .matching { c with
            starIdx := some c.patternIdx
            patternIdx := c.patternIdx + 1
            starTextIdx := c.textIdx }
        else match c.starIdx with
          | some star =>
              return .matching { c with
                patternIdx := star + 1
                starTextIdx := c.starTextIdx + 1
                textIdx := c.starTextIdx + 1 }
          | none => return .returned false
      else some (.trailing c.patternIdx)
  | .trailing i => do
      if ← shortAnd (i < pattern.length) (do return (← byteAt pattern i) == '*'.toUInt8) then
        return .trailing (i + 1)
      else
        return .returned (i == pattern.length)
  | .returned answer => some (.returned answer)

end GlobPoint

/-- The variables, without the fact the model keeps about them. -/
def GlobState.cursor (s : GlobState) : GlobCursor := ⟨s.patternIdx, s.textIdx, s.starIdx, s.starTextIdx⟩

variable {pattern text : List UInt8} {byte : UInt8}

/-- The guard of both loops keeps the access behind it inside the pattern. -/
theorem shortAnd_byteAt {i : Nat} :
    shortAnd (i < pattern.length) (do return (← byteAt pattern i) == byte) =
      some (decide (pattern[i]? = some byte)) := by
  unfold shortAnd byteAt
  by_cases inside : i < pattern.length
  · rw [if_pos (by simpa using inside), List.getElem?_eq_getElem inside]
    simp [Bool.beq_eq_decide_eq]
  · rw [if_neg (by simpa using inside), List.getElem?_eq_none (by omega)]
    rfl

/-- Inside the text, a turn of the first loop is a turn of the model. -/
theorem step_matching {s : GlobState} (here : text[s.textIdx]? = some byte) :
    GlobPoint.step pattern text (.matching s.cursor) =
      some (match s.turn pattern byte with
        | some t => .matching t.cursor
        | none => .returned false) := by
  have inside : s.cursor.textIdx < text.length := (List.getElem?_eq_some_iff.mp here).1
  have read : byteAt text s.cursor.textIdx = some byte := here
  have letters : shortAnd (s.cursor.patternIdx < pattern.length)
      (do return (← byteAt pattern s.cursor.patternIdx) == (← byteAt text s.cursor.textIdx)) =
        some (decide (pattern[s.patternIdx]? = some byte)) := by
    rw [read]
    exact shortAnd_byteAt
  have star : shortAnd (s.cursor.patternIdx < pattern.length)
      (do return (← byteAt pattern s.cursor.patternIdx) == '*'.toUInt8) =
        some (decide (pattern[s.patternIdx]? = some '*'.toUInt8)) := shortAnd_byteAt
  rw [GlobPoint.step, if_pos inside, letters, star]
  unfold GlobState.turn
  by_cases letter : pattern[s.patternIdx]? = some byte
  · rw [if_pos letter, decide_eq_true letter]
    rfl
  · rw [if_neg letter, decide_eq_false letter]
    by_cases found : pattern[s.patternIdx]? = some '*'.toUInt8
    · rw [if_pos found, decide_eq_true found]
      rfl
    · rw [if_neg found, decide_eq_false found]
      cases remembered : s.starIdx with
      | some star =>
          have same : s.cursor.starIdx = some star := remembered
          simp only [same]
          rfl
      | none =>
          have same : s.cursor.starIdx = none := remembered
          simp only [same]
          rfl

theorem step_trailing {i : Nat} :
    GlobPoint.step pattern text (.trailing i) =
      some (if pattern[i]? = some star then .trailing (i + 1)
        else .returned (i == pattern.length)) := by
  have guarded : shortAnd (i < pattern.length) (do return (← byteAt pattern i) == '*'.toUInt8) =
      some (decide (pattern[i]? = some star)) := shortAnd_byteAt
  rw [GlobPoint.step, guarded]
  by_cases found : pattern[i]? = some star
  · rw [if_pos found, decide_eq_true found]
    rfl
  · rw [if_neg found, decide_eq_false found]
    rfl

theorem step_past {s : GlobState} (past : text.length ≤ s.textIdx) :
    GlobPoint.step pattern text (.matching s.cursor) = some (.trailing s.patternIdx) := by
  have outside : ¬s.cursor.textIdx < text.length := Nat.not_lt.mpr past
  rw [GlobPoint.step, if_neg outside]
  rfl

/-! ### What holds at every point -/

/-- No position is past its end, and the remembered star is before the position
in the pattern. -/
structure GlobState.Inside (pattern text : List UInt8) (s : GlobState) : Prop where
  pattern_le : s.patternIdx ≤ pattern.length
  text_le : s.textIdx ≤ text.length
  star_lt : ∀ k, s.starIdx = some k → k < s.patternIdx

theorem GlobState.Inside.turn {s t : GlobState} (inside : s.Inside pattern text)
    (here : text[s.textIdx]? = some byte) (turned : s.turn pattern byte = some t) :
    t.Inside pattern text := by
  have room := (List.getElem?_eq_some_iff.mp here).1
  unfold GlobState.turn at turned
  split at turned
  · next letter =>
      cases turned
      have more := (List.getElem?_eq_some_iff.mp letter).1
      exact ⟨more, room, fun k same => Nat.lt_succ_of_lt (inside.star_lt k same)⟩
  · split at turned
    · next found =>
        cases turned
        have more := (List.getElem?_eq_some_iff.mp found).1
        refine ⟨more, inside.text_le, ?_⟩
        intro k same
        cases same
        exact Nat.lt_succ_self _
    · split at turned
      · next k remembered =>
          cases turned
          have before := s.remembered
          have early := inside.star_lt k remembered
          have within := inside.pattern_le
          have further : k + 1 ≤ pattern.length := by omega
          have farther : s.starTextIdx + 1 ≤ text.length := by omega
          refine ⟨further, farther, ?_⟩
          intro j same
          cases same
          exact Nat.lt_succ_self _
      · cases turned

/-- What the first loop leaves decides the answer. -/
def globAnswer (pattern : List UInt8) : Option Nat → Bool
  | none => false
  | some i => (pattern.drop i).all (· == star)

/-- Every point of a run leads to the answer of the model. -/
def GlobPoint.OnTrack (pattern text : List UInt8) : GlobPoint → Prop
  | .matching c => ∃ s : GlobState, s.cursor = c ∧ s.Inside pattern text ∧
      globAnswer pattern (globLoop pattern text s) = globMatches pattern text
  | .trailing i => i ≤ pattern.length ∧
      (pattern.drop i).all (· == star) = globMatches pattern text
  | .returned answer => answer = globMatches pattern text

theorem start_onTrack : GlobPoint.start.OnTrack pattern text := by
  refine ⟨.start, rfl, ⟨Nat.zero_le _, Nat.zero_le _, ?_⟩, ?_⟩
  · intro k same
    cases same
  · unfold globMatches globAnswer
    rfl

theorem globLoop_turn {s : GlobState} (inside : s.textIdx < text.length) :
    globLoop pattern text s =
      match s.turn pattern text[s.textIdx] with
      | none => none
      | some t => globLoop pattern text t := by
  rw [globLoop, dif_pos inside]
  split
  · next failed => rw [failed]
  · next t turned => rw [turned]

/-- How a turn of the model moves what the code remembers. -/
theorem GlobState.Inside.forward {s t : GlobState} (inside : s.Inside pattern text)
    (turned : s.turn pattern byte = some t) :
    s.starTextIdx ≤ t.starTextIdx ∧
      ∀ k, s.starIdx = some k → ∃ k', t.starIdx = some k' ∧ k ≤ k' := by
  unfold GlobState.turn at turned
  split at turned
  · cases turned
    exact ⟨le_rfl, fun k same => ⟨k, same, le_rfl⟩⟩
  · split at turned
    · cases turned
      exact ⟨s.remembered, fun k same => ⟨s.patternIdx, rfl, (inside.star_lt k same).le⟩⟩
    · split at turned
      · next star remembered =>
          cases turned
          refine ⟨Nat.le_succ _, ?_⟩
          intro k same
          cases remembered.symm.trans same
          exact ⟨star, rfl, le_rfl⟩
      · cases turned

/-- The measure of a point: a pass through the pattern for each byte of the text behind
the star, and what is left of the current one. -/
def GlobPoint.left (pattern text : List UInt8) : GlobPoint → Nat
  | .matching c => (text.length - c.starTextIdx) * (pattern.length + 1) +
      (pattern.length - c.patternIdx) + (pattern.length + 2)
  | .trailing i => pattern.length - i + 1
  | .returned _ => 0

theorem GlobState.Inside.measure {s t : GlobState} (inside : t.Inside pattern text)
    (turned : s.turn pattern byte = some t) :
    GlobPoint.left pattern text (.matching t.cursor) < GlobPoint.left pattern text (.matching s.cursor) := by
  have moved := GlobState.turn_progress turned
  have before := t.remembered
  have within := inside.text_le
  show (text.length - t.starTextIdx) * (pattern.length + 1) + (pattern.length - t.patternIdx) + _ <
    (text.length - s.starTextIdx) * (pattern.length + 1) + (pattern.length - s.patternIdx) + _
  rcases moved with further | ⟨same, next, room⟩
  · have pass : (text.length - t.starTextIdx + 1) * (pattern.length + 1) ≤
        (text.length - s.starTextIdx) * (pattern.length + 1) :=
      Nat.mul_le_mul_right _ (by omega)
    rw [Nat.add_mul, Nat.one_mul] at pass
    omega
  · rw [same, next]
    omega

/-- Neither the remembered star nor its position in the text has moved back, and the
first loop has not been entered again. -/
def GlobPoint.Forward (p q : GlobPoint) : Prop :=
  ∀ c', q = .matching c' → ∃ c, p = .matching c ∧ c.starTextIdx ≤ c'.starTextIdx ∧
    ∀ k, c.starIdx = some k → ∃ k', c'.starIdx = some k' ∧ k ≤ k'

theorem GlobPoint.Forward.refl (p : GlobPoint) : p.Forward p :=
  fun c here => ⟨c, here, le_rfl, fun k same => ⟨k, same, le_rfl⟩⟩

theorem GlobPoint.Forward.trans {p q r : GlobPoint} (first : p.Forward q) (second : q.Forward r) :
    p.Forward r := by
  intro c'' last
  obtain ⟨c', middle, text_le, star_le⟩ := second c'' last
  obtain ⟨c, begins, text_le', star_le'⟩ := first c' middle
  refine ⟨c, begins, text_le'.trans text_le, ?_⟩
  intro k same
  obtain ⟨k', same', before⟩ := star_le' k same
  obtain ⟨k'', same'', before'⟩ := star_le k' same'
  exact ⟨k'', same'', before.trans before'⟩

/-- What one turn of the code does: it stays on track, comes nearer to the end, and
moves no star back. -/
structure GlobPoint.Turned (pattern text : List UInt8) (p q : GlobPoint) : Prop where
  onTrack : q.OnTrack pattern text
  nearer : (∃ answer, p = .returned answer) ∨ q.left pattern text < p.left pattern text
  forward : p.Forward q

theorem GlobPoint.step_spec {p : GlobPoint} (track : p.OnTrack pattern text) :
    ∃ q, p.step pattern text = some q ∧ Turned pattern text p q := by
  cases p with
  | matching c =>
      obtain ⟨s, rfl, inside, answer⟩ := track
      rcases Nat.lt_or_ge s.textIdx text.length with more | past
      · have here := List.getElem?_eq_getElem more
        rw [globLoop_turn more] at answer
        refine ⟨_, step_matching here, ?_⟩
        cases turned : s.turn pattern text[s.textIdx] with
        | none =>
            rw [turned] at answer
            refine ⟨answer, .inr (Nat.lt_of_lt_of_le (Nat.zero_lt_succ _) (Nat.le_add_left _ _)), ?_⟩
            intro c' back
            cases back
        | some t =>
            rw [turned] at answer
            have after := inside.turn here turned
            refine ⟨⟨t, rfl, after, answer⟩, .inr (after.measure turned), ?_⟩
            intro c' same
            cases same
            exact ⟨s.cursor, rfl, inside.forward turned⟩
      · refine ⟨_, step_past past, ?_⟩
        rw [globLoop, dif_neg (Nat.not_lt.mpr past)] at answer
        refine ⟨⟨inside.pattern_le, answer⟩, .inr ?_, ?_⟩
        · show pattern.length - s.patternIdx + 1 < _ + (pattern.length + 2)
          omega
        · intro c' back
          cases back
  | trailing i =>
      obtain ⟨within, answer⟩ := track
      refine ⟨_, step_trailing, ?_⟩
      split
      · next found =>
          have more := (List.getElem?_eq_some_iff.mp found).1
          rw [GlobState.drop_of_getElem? found] at answer
          refine ⟨⟨more, by simpa using answer⟩, .inr ?_, ?_⟩
          · show pattern.length - (i + 1) + 1 < pattern.length - i + 1
            omega
          · intro c' back
            cases back
      · next other =>
          refine ⟨?_, .inr (Nat.zero_lt_succ _), ?_⟩
          · show (i == pattern.length) = globMatches pattern text
            rw [← answer]
            rcases within.lt_or_eq with more | rfl
            · rw [List.getElem?_eq_getElem more, Option.some_inj] at other
              rw [List.drop_eq_getElem_cons more, List.all_cons, beq_eq_false_iff_ne.mpr other,
                beq_eq_false_iff_ne.mpr more.ne]
              rfl
            · simp
          · intro c' back
            cases back
  | returned answer => exact ⟨_, rfl, track, .inl ⟨answer, rfl⟩, .refl _⟩

theorem GlobPoint.safe : Safe (GlobPoint.step pattern text) (GlobPoint.OnTrack pattern text) := by
  constructor
  · intro p track
    obtain ⟨q, turned, -⟩ := step_spec track
    exact ⟨q, turned⟩
  · intro p q track turned
    obtain ⟨q', turned', spec⟩ := step_spec track
    cases turned.symm.trans turned'
    exact spec.onTrack

/-- A run of `glob_matches` of any length goes wrong nowhere; the function returns the answer of
the model after a bounded number of turns; and between any two points of a run, the remembered
star and its position in the text have not moved back. -/
theorem glob_matches_terminates (pattern text : List UInt8) :
    (∀ n, ∃ p, steps (GlobPoint.step pattern text) n .start = some p) ∧
      (∃ n ≤ (text.length + 2) * (pattern.length + 1),
        steps (GlobPoint.step pattern text) n .start = some (.returned (globMatches pattern text))) ∧
      ∀ m n c c', m ≤ n → steps (GlobPoint.step pattern text) m .start = some (.matching c) →
        steps (GlobPoint.step pattern text) n .start = some (.matching c') →
        c.starTextIdx ≤ c'.starTextIdx ∧
          ∀ k, c.starIdx = some k → ∃ k', c'.starIdx = some k' ∧ k ≤ k' := by
  have begins : GlobPoint.start.OnTrack pattern text := start_onTrack
  refine ⟨GlobPoint.safe.total begins, ?_, ?_⟩
  · have falls : ∀ p q : GlobPoint, p.OnTrack pattern text → p.step pattern text = some q →
        (∃ answer, p = .returned answer) ∨ q.left pattern text < p.left pattern text := by
      intro p q track turned
      obtain ⟨q', turned', spec⟩ := GlobPoint.step_spec track
      cases turned.symm.trans turned'
      exact spec.nearer
    obtain ⟨n, few, p, reached, answer, rfl⟩ := GlobPoint.safe.finishes falls begins
    have right : answer = globMatches pattern text := GlobPoint.safe.kept begins reached
    rw [right] at reached
    refine ⟨n, few.trans (le_of_eq ?_), reached⟩
    show (text.length - 0) * (pattern.length + 1) + (pattern.length - 0) + (pattern.length + 2) =
      (text.length + 2) * (pattern.length + 1)
    rw [Nat.sub_zero, Nat.sub_zero]
    ring
  · intro m n c c' order early late
    have each : ∀ p q : GlobPoint, p.OnTrack pattern text → p.step pattern text = some q → p.Forward q := by
      intro p q track turned
      obtain ⟨q', turned', spec⟩ := GlobPoint.step_spec track
      cases turned.symm.trans turned'
      exact spec.forward
    have forward := GlobPoint.safe.relates GlobPoint.Forward.refl GlobPoint.Forward.trans each begins
      order early late
    obtain ⟨_, same, monotone⟩ := forward c' rfl
    cases same
    exact monotone

end WeeEvents
