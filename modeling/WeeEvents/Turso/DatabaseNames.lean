import WeeEvents.Ulid
import WeeEvents.Turso.Sanitize

/-!
# The names of databases

A database name is a word of lower-case letters, digits and dashes that neither
starts nor ends with a dash. What the sanitiser builds is one, within the length
budget, unless it has nothing to build it from.
-/
namespace WeeEvents.Turso

/-! ### Words -/

/-- A lower-case letter or a digit. -/
def IsNameChar (c : Char) : Prop := 'a' ≤ c ∧ c ≤ 'z' ∨ '0' ≤ c ∧ c ≤ '9'

instance decidableIsNameChar (c : Char) : Decidable (IsNameChar c) :=
  inferInstanceAs (Decidable (_ ∨ _))

/-- A word of name characters and dashes with a name character at both ends. -/
structure NameWord (word : List Char) : Prop where
  chars : ∀ c ∈ word, IsNameChar c ∨ c = '-'
  first : ∃ c, word.head? = some c ∧ IsNameChar c
  last : ∃ c, word.getLast? = some c ∧ IsNameChar c

theorem not_isNameChar_dash : ¬ IsNameChar '-' := by decide

theorem NameWord.of_chars {word : List Char} (nonempty : word ≠ [])
    (chars : ∀ c ∈ word, IsNameChar c) : NameWord word where
  chars c member := .inl (chars c member)
  first := by
    obtain ⟨c, rest, rfl⟩ := List.exists_cons_of_ne_nil nonempty
    exact ⟨c, rfl, chars c (List.mem_cons_self ..)⟩
  last := by
    refine ⟨word.getLast nonempty, List.getLast?_eq_some_getLast nonempty, ?_⟩
    exact chars _ (List.getLast_mem nonempty)

/-- Two words joined by a dash. -/
theorem NameWord.join {front back : List Char} (hf : NameWord front) (hb : NameWord back) :
    NameWord (front ++ '-' :: back) where
  chars c member := by
    rcases List.mem_append.mp member with inFront | inBack
    · exact hf.chars c inFront
    · rcases List.mem_cons.mp inBack with rfl | later
      · exact .inr rfl
      · exact hb.chars c later
  first := by
    obtain ⟨c, isFirst, name⟩ := hf.first
    refine ⟨c, ?_, name⟩
    rw [List.head?_append, isFirst]
    rfl
  last := by
    obtain ⟨c, isLast, name⟩ := hb.last
    refine ⟨c, ?_, name⟩
    rw [List.getLast?_append, List.getLast?_cons, isLast]
    rfl

theorem isNameChar_ascii {c : Char} (h : IsNameChar c ∨ c = '-') : c.utf8Size = 1 := by
  have bounded : ∀ top : Char, top.val.toNat ≤ 127 → c ≤ top → c.val ≤ 127 := by
    intro top small below
    rw [Char.le_def, UInt32.le_iff_toNat_le] at below
    rw [UInt32.le_iff_toNat_le]
    exact below.trans small
  apply Char.utf8Size_eq_one_iff.mpr
  rcases h with (⟨_, letter⟩ | ⟨_, digit⟩) | rfl
  · exact bounded 'z' (by decide) letter
  · exact bounded '9' (by decide) digit
  · decide

/-- A word takes one byte a character. -/
theorem utf8ByteSize_of_name {s : String} (chars : ∀ c ∈ s.toList, IsNameChar c ∨ c = '-') :
    s.utf8ByteSize = s.toList.length := by
  have size := utf8ByteSize_ofList_ascii fun c member => isNameChar_ascii (chars c member)
  rw [String.ofList_toList] at size
  exact size

/-- What the platform takes as a database name. -/
structure ValidDatabaseName (name : String) : Prop where
  nonempty : name ≠ ""
  short : name.utf8ByteSize ≤ 51
  chars : ∀ c ∈ name.toList, 'a' ≤ c ∧ c ≤ 'z' ∨ '0' ≤ c ∧ c ≤ '9' ∨ c = '-'
  noLeadingDash : name.toList.head? ≠ some '-'
  noTrailingDash : name.toList.getLast? ≠ some '-'

theorem NameWord.valid {name : String} (word : NameWord name.toList)
    (short : name.toList.length ≤ 51) : ValidDatabaseName name where
  nonempty := by
    rintro rfl
    obtain ⟨c, isFirst, _⟩ := word.first
    cases isFirst
  short := by
    rw [utf8ByteSize_of_name word.chars]
    exact short
  chars c member := or_assoc.mp (word.chars c member)
  noLeadingDash same := by
    obtain ⟨c, isFirst, name⟩ := word.first
    rw [same] at isFirst
    cases isFirst
    exact not_isNameChar_dash name
  noTrailingDash same := by
    obtain ⟨c, isLast, name⟩ := word.last
    rw [same] at isLast
    cases isLast
    exact not_isNameChar_dash name

/-! ### Fragments -/

theorem toLower_isNameChar {c : Char} (h : 'A' ≤ c ∧ c ≤ 'Z') : IsNameChar c.toLower := by
  left
  rw [Char.le_def, Char.le_def] at h
  unfold Char.toLower
  rw [dif_pos h, Char.le_def, Char.le_def]
  rw [UInt32.le_iff_toNat_le, UInt32.le_iff_toNat_le] at h ⊢
  dsimp only
  rw [UInt32.toNat_add]
  have upperA : 'A'.val.toNat = 65 := rfl
  have upperZ : 'Z'.val.toNat = 90 := rfl
  have lowerA : 'a'.val.toNat = 97 := rfl
  have lowerZ : 'z'.val.toNat = 122 := rfl
  have shift : ('a'.val - 'A'.val).toNat = 32 := rfl
  omega

/-- An ASCII letter or digit, the characters that the sanitiser keeps. -/
def IsKept (c : Char) : Prop := IsNameChar c ∨ 'A' ≤ c ∧ c ≤ 'Z'

/-- The characters so far are a word, but for dashes at its end. -/
structure Fragment.Sound (fragment : Fragment) : Prop where
  chars : ∀ c ∈ fragment.result, IsNameChar c ∨ c = '-'
  first : ∀ c, fragment.result.head? = some c → IsNameChar c

variable {fragment : Fragment} {c out : Char} {prevDash : Bool} {limit : Nat} {raw pre : String}

theorem Fragment.out_char (isOut : fragment.out c = some (out, prevDash)) :
    IsNameChar out ∨ out = '-' ∧ fragment.result ≠ [] := by
  unfold Fragment.out at isOut
  split at isOut
  · next name =>
      cases isOut
      exact .inl name
  · split at isOut
    · next upper =>
        cases isOut
        exact .inl (toLower_isNameChar upper)
    · split at isOut
      · cases isOut
      · next separated =>
          cases isOut
          right
          refine ⟨rfl, ?_⟩
          intro empty
          simp [empty] at separated

theorem Fragment.out_kept (kept : IsKept c) : ∃ out, fragment.out c = some (out, false) := by
  unfold Fragment.out
  by_cases name : 'a' ≤ c ∧ c ≤ 'z' ∨ '0' ≤ c ∧ c ≤ '9'
  · exact ⟨c, if_pos name⟩
  · have upper : 'A' ≤ c ∧ c ≤ 'Z' := kept.resolve_left name
    rw [if_neg name, if_pos upper]
    exact ⟨_, rfl⟩

theorem Fragment.out_dropped (dropped : ¬ IsKept c) (empty : fragment.result = []) :
    fragment.out c = none := by
  have plain : ¬ ('a' ≤ c ∧ c ≤ 'z' ∨ '0' ≤ c ∧ c ≤ '9') := fun name => dropped (.inl name)
  have lower : ¬ ('A' ≤ c ∧ c ≤ 'Z') := fun upper => dropped (.inr upper)
  unfold Fragment.out
  rw [if_neg plain, if_neg lower]
  simp [empty]

theorem Fragment.Sound.push (sound : fragment.Sound)
    (isOut : fragment.out c = some (out, prevDash)) :
    Fragment.Sound ⟨fragment.result ++ [out], prevDash⟩ := by
  have outChar := Fragment.out_char isOut
  constructor
  · intro d member
    rcases List.mem_append.mp member with old | new
    · exact sound.chars d old
    · rw [List.mem_singleton.mp new]
      exact outChar.imp id And.left
  · intro d isFirst
    cases known : fragment.result with
    | nil =>
        rw [known] at isFirst
        cases isFirst
        rcases outChar with name | ⟨_, nonempty⟩
        · exact name
        · exact absurd known nonempty
    | cons e rest =>
        rw [known] at isFirst
        apply sound.first d
        rw [known]
        exact isFirst

/-- What the loop keeps: a sound fragment within the limit, extending the one it started with. -/
theorem sanitizeLoop_sound (cs : List Char) (sound : fragment.Sound)
    (within : fragment.result.length ≤ limit) :
    (sanitizeLoop limit cs fragment).Sound ∧
      (sanitizeLoop limit cs fragment).result.length ≤ limit ∧
      fragment.result <+: (sanitizeLoop limit cs fragment).result := by
  induction cs generalizing fragment with
  | nil => exact ⟨sound, within, List.prefix_refl _⟩
  | cons c cs ih =>
      rw [sanitizeLoop]
      cases isOut : fragment.out c with
      | none => exact ih sound within
      | some next =>
          obtain ⟨out, prevDash⟩ := next
          dsimp only
          split
          · exact ⟨⟨sound.chars, sound.first⟩, within, List.prefix_refl _⟩
          · next room =>
              have longer : (fragment.result ++ [out]).length ≤ limit := by
                rw [List.length_append, List.length_singleton]
                omega
              obtain ⟨sound', within', extends'⟩ := ih (sound.push isOut) longer
              exact ⟨sound', within', (List.prefix_append _ _).trans extends'⟩

/-- From nothing, the loop keeps something exactly when there is a letter or a digit. -/
theorem sanitizeLoop_eq_nil (cs : List Char) (room : 0 < limit) (empty : fragment.result = [])
    (sound : fragment.Sound) :
    (sanitizeLoop limit cs fragment).result = [] ↔ ∀ c ∈ cs, ¬ IsKept c := by
  induction cs generalizing fragment with
  | nil => simpa [sanitizeLoop] using empty
  | cons c cs ih =>
      rw [sanitizeLoop, List.forall_mem_cons]
      by_cases kept : IsKept c
      · obtain ⟨out, isOut⟩ : ∃ out, fragment.out c = some (out, false) := Fragment.out_kept kept
        rw [isOut]
        dsimp only
        rw [if_neg (by rw [empty]; exact not_le.mpr room)]
        have within : (fragment.result ++ [out]).length ≤ limit := by
          rw [empty]
          exact room
        obtain ⟨_, _, extends'⟩ := sanitizeLoop_sound cs (sound.push isOut) within
        constructor
        · intro none
          rw [none, List.prefix_nil] at extends'
          simp at extends'
        · intro all
          exact absurd kept all.1
      · rw [Fragment.out_dropped kept empty]
        dsimp only
        rw [ih empty sound]
        exact ⟨fun rest => ⟨kept, rest⟩, And.right⟩

/-- Without its dashes at the end a sound fragment is a word, or there is none. -/
theorem Fragment.Sound.word (sound : fragment.Sound) (nonempty : fragment.result ≠ []) :
    NameWord (fragment.result.rdropWhile (· == '-')) := by
  obtain ⟨c, rest, same⟩ := List.exists_cons_of_ne_nil nonempty
  have isFirst : fragment.result.head? = some c := by rw [same]; rfl
  have name := sound.first c isFirst
  have kept : fragment.result.rdropWhile (· == '-') ≠ [] := by
    intro none
    rw [List.rdropWhile_eq_nil_iff] at none
    have dash := none c (by rw [same]; exact List.mem_cons_self ..)
    rw [beq_iff_eq] at dash
    subst dash
    exact not_isNameChar_dash name
  have before := List.rdropWhile_prefix (· == '-') fragment.result
  constructor
  · intro d member
    exact sound.chars d (before.subset member)
  · obtain ⟨d, front, split⟩ := List.exists_cons_of_ne_nil kept
    rw [split, same] at before
    have sameFirst : d = c := (List.cons_prefix_cons.mp before).1
    refine ⟨d, by rw [split]; rfl, ?_⟩
    rw [sameFirst]
    exact name
  · refine ⟨_, List.getLast?_eq_some_getLast kept, ?_⟩
    have noDash := List.rdropWhile_last_not (· == '-') fragment.result kept
    rw [beq_iff_eq] at noDash
    exact (sound.chars _ (before.subset (List.getLast_mem kept))).resolve_right noDash

theorem sanitizeLoop_start (raw : String) (limit : Nat) :
    (sanitizeLoop limit raw.toList ⟨[], false⟩).Sound ∧
      (sanitizeLoop limit raw.toList ⟨[], false⟩).result.length ≤ limit := by
  have start : Fragment.Sound ⟨[], false⟩ := by
    constructor
    · intro c member
      cases member
    · intro c none
      cases none
  obtain ⟨sound, within, _⟩ := sanitizeLoop_sound raw.toList start (Nat.zero_le limit)
  exact ⟨sound, within⟩

/-- A fragment is a word within the limit, or empty. -/
theorem sanitizeFragment_word (raw : String) (limit : Nat) :
    (sanitizeFragment raw limit = "" ∨ NameWord (sanitizeFragment raw limit).toList) ∧
      (sanitizeFragment raw limit).toList.length ≤ limit := by
  obtain ⟨sound, within⟩ := sanitizeLoop_start raw limit
  unfold sanitizeFragment
  rw [String.toList_ofList]
  constructor
  · by_cases none : (sanitizeLoop limit raw.toList ⟨[], false⟩).result = []
    · left
      rw [none]
      rfl
    · exact .inr (sound.word none)
  · exact (List.rdropWhile_prefix _ _).length_le.trans within

/-- A fragment is empty exactly when there is no letter and no digit to build it from. -/
theorem sanitizeFragment_eq_empty (room : 0 < limit) :
    sanitizeFragment raw limit = "" ↔ ∀ c ∈ raw.toList, ¬ IsKept c := by
  obtain ⟨sound, _⟩ := sanitizeLoop_start raw limit
  have start : Fragment.Sound ⟨[], false⟩ := by
    constructor
    · intro c member
      cases member
    · intro c none
      cases none
  rw [← sanitizeLoop_eq_nil raw.toList room rfl start]
  unfold sanitizeFragment
  constructor
  · intro empty
    by_contra nonempty
    obtain ⟨c, isFirst, _⟩ := (sound.word nonempty).first
    have none := congrArg String.toList empty
    rw [String.toList_ofList] at none
    rw [none] at isFirst
    cases isFirst
  · intro none
    rw [none]
    rfl

/-! ### The parts of a name -/

theorem toList_dash_append (s t : String) :
    (s ++ "-" ++ t).toList = s.toList ++ '-' :: t.toList := by
  rw [String.toList_append, String.toList_append, List.append_assoc]
  rfl

/-- Name characters, as a test that evaluates. -/
theorem isNameChar_of_all {word : List Char}
    (all : (word.all fun c => decide (IsNameChar c)) = true) : ∀ c ∈ word, IsNameChar c := by
  intro c member
  exact of_decide_eq_true (List.all_eq_true.mp all c member)

theorem hexDigit_isNameChar (n : Nat) : IsNameChar (hexDigit n) := by
  have digits : ∀ c ∈ "0123456789abcdef".toList, IsNameChar c :=
    isNameChar_of_all (by decide +kernel)
  unfold hexDigit
  by_cases inside : n < "0123456789abcdef".toList.length
  · rw [List.getD_eq_getElem _ _ inside]
    exact digits _ (List.getElem_mem inside)
  · rw [List.getD_eq_default _ _ (not_lt.mp inside)]
    decide

theorem hexDigits_isNameChar (width n : Nat) : ∀ c ∈ hexDigits width n, IsNameChar c := by
  induction width generalizing n with
  | zero => simp [hexDigits]
  | succ width ih =>
      intro c member
      rcases List.mem_append.mp member with front | last
      · exact ih _ c front
      · rw [List.mem_singleton.mp last]
        exact hexDigit_isNameChar _

theorem length_hexDigits (width n : Nat) : (hexDigits width n).length = width := by
  induction width generalizing n with
  | zero => rfl
  | succ width ih => rw [hexDigits, List.length_append, ih, List.length_singleton]

theorem stableHashHex_word (raw : String) :
    NameWord (stableHashHex raw).toList ∧ (stableHashHex raw).toList.length = 16 := by
  rw [stableHashHex, String.toList_ofList]
  have long := length_hexDigits 16 (stableHash raw).toNat
  refine ⟨NameWord.of_chars ?_ (hexDigits_isNameChar _ _), long⟩
  intro none
  rw [none] at long
  cases long

/-- The abbreviated prefix and part of its hash. -/
theorem namedDatabasePrefix_split (pre : String) : ∃ word hash : List Char,
    (namedDatabasePrefix pre).toList = word ++ '-' :: hash ∧
      NameWord word ∧ word.length ≤ 12 ∧ NameWord hash ∧ hash.length = 8 := by
  have fragment : ∃ word : String,
      (if (sanitizeFragment pre prefixFragmentLimit).isEmpty then "db"
        else sanitizeFragment pre prefixFragmentLimit) = word ∧
      NameWord word.toList ∧ word.toList.length ≤ 12 := by
    obtain ⟨word, short⟩ := sanitizeFragment_word pre prefixFragmentLimit
    by_cases empty : (sanitizeFragment pre prefixFragmentLimit).isEmpty = true
    · refine ⟨"db", if_pos empty, NameWord.of_chars (by decide) ?_, by decide⟩
      exact isNameChar_of_all (by decide +kernel)
    · refine ⟨_, if_neg empty, word.resolve_left ?_, short⟩
      rw [← String.isEmpty_iff]
      exact empty
  have long : ((stableHashHex pre).toList.take prefixHashLen).length = 8 := by
    rw [List.length_take, (stableHashHex_word pre).2]
    rfl
  have hash : NameWord ((stableHashHex pre).toList.take prefixHashLen) := by
    apply NameWord.of_chars
    · intro none
      rw [none] at long
      cases long
    · intro c member
      have inside := List.mem_of_mem_take member
      rw [stableHashHex, String.toList_ofList] at inside
      exact hexDigits_isNameChar _ _ c inside
  obtain ⟨word, same, isWord, short⟩ := fragment
  refine ⟨word.toList, (stableHashHex pre).toList.take prefixHashLen, ?_, isWord, short, hash, long⟩
  unfold namedDatabasePrefix
  dsimp only
  rw [same, toList_dash_append, String.toList_ofList]

/-- A word of at most 21 characters. -/
theorem namedDatabasePrefix_word (pre : String) :
    NameWord (namedDatabasePrefix pre).toList ∧ (namedDatabasePrefix pre).toList.length ≤ 21 := by
  obtain ⟨word, hash, split, isWord, short, isHash, long⟩ := namedDatabasePrefix_split pre
  rw [split]
  refine ⟨isWord.join isHash, ?_⟩
  rw [List.length_append, List.length_cons, long]
  omega

/-- The room that `sanitize_database_name` computes for the partition's fragment. -/
def partitionRoom (partitionName pre : String) : Nat :=
  51 - (namedDatabasePrefix pre).utf8ByteSize - (stableHashHex partitionName).utf8ByteSize - 2

/-- What follows the abbreviated prefix and a dash in the name of a partition's database. -/
def partitionSuffix (partitionName pre : String) : String :=
  let partition := sanitizeFragment partitionName (partitionRoom partitionName pre)
  if partition.isEmpty then stableHashHex partitionName
  else partition ++ "-" ++ stableHashHex partitionName

/-- The subtraction does not underflow: the parts around the fragment leave it room. -/
theorem partitionRoom_add (partitionName pre : String) :
    (namedDatabasePrefix pre).utf8ByteSize + (stableHashHex partitionName).utf8ByteSize + 2 ≤ 51 ∧
      (namedDatabasePrefix pre).utf8ByteSize + (stableHashHex partitionName).utf8ByteSize + 2 +
        partitionRoom partitionName pre = 51 := by
  obtain ⟨named, short⟩ := namedDatabasePrefix_word pre
  obtain ⟨hash, long⟩ := stableHashHex_word partitionName
  have namedSize := utf8ByteSize_of_name named.chars
  have hashSize := utf8ByteSize_of_name hash.chars
  unfold partitionRoom
  omega

theorem sanitizeDatabaseName_eq {partitionName : String} (nonempty : partitionName ≠ "")
    (pre : String) : sanitizeDatabaseName partitionName pre =
      namedDatabasePrefix pre ++ "-" ++ partitionSuffix partitionName pre := by
  have isNonempty : ¬ partitionName.isEmpty = true := by
    rw [String.isEmpty_iff]
    exact nonempty
  unfold sanitizeDatabaseName partitionSuffix partitionRoom
  rw [if_neg isNonempty]
  dsimp only
  split
  · rfl
  · rw [String.append_assoc, String.append_assoc, String.append_assoc, String.append_assoc,
      String.append_assoc]

theorem partitionSuffix_word (partitionName pre : String) :
    NameWord (partitionSuffix partitionName pre).toList ∧
      (partitionSuffix partitionName pre).toList.length ≤ partitionRoom partitionName pre + 17 := by
  obtain ⟨hash, long⟩ := stableHashHex_word partitionName
  obtain ⟨word, short⟩ := sanitizeFragment_word partitionName (partitionRoom partitionName pre)
  unfold partitionSuffix
  dsimp only
  split
  · refine ⟨hash, ?_⟩
    omega
  · next nonempty =>
      rw [String.isEmpty_iff] at nonempty
      have split : (sanitizeFragment partitionName (partitionRoom partitionName pre) ++ "-" ++
          stableHashHex partitionName).toList =
            (sanitizeFragment partitionName (partitionRoom partitionName pre)).toList ++
              '-' :: (stableHashHex partitionName).toList := toList_dash_append _ _
      rw [split]
      refine ⟨(word.resolve_left nonempty).join hash, ?_⟩
      rw [List.length_append, List.length_cons, long]
      omega

/-- The database of a named partition has a valid name. -/
theorem valid_of_named {partitionName : String} (nonempty : partitionName ≠ "") (pre : String) :
    ValidDatabaseName (sanitizeDatabaseName partitionName pre) := by
  obtain ⟨named, short⟩ := namedDatabasePrefix_word pre
  obtain ⟨suffix, within⟩ := partitionSuffix_word partitionName pre
  have split : (sanitizeDatabaseName partitionName pre).toList =
      (namedDatabasePrefix pre).toList ++ '-' :: (partitionSuffix partitionName pre).toList := by
    rw [sanitizeDatabaseName_eq nonempty, toList_dash_append]
  have room := (partitionRoom_add partitionName pre).2
  have namedSize := utf8ByteSize_of_name named.chars
  obtain ⟨hash, long⟩ := stableHashHex_word partitionName
  have hashSize := utf8ByteSize_of_name hash.chars
  apply NameWord.valid
  · rw [split]
    exact named.join suffix
  · rw [split, List.length_append, List.length_cons]
    omega

theorem sanitizeDatabaseName_empty (pre : String) :
    sanitizeDatabaseName "" pre = sanitizeFragment pre 51 := if_pos rfl

/-- Database names are valid exactly when there is something to build them from: a
partition name, or a letter or digit in the prefix. The length subtraction never
underflows. -/
theorem database_name_valid_iff (partitionName pre : String) :
    (ValidDatabaseName (sanitizeDatabaseName partitionName pre) ∧
      (namedDatabasePrefix pre).utf8ByteSize + (stableHashHex partitionName).utf8ByteSize + 2 ≤ 51) ↔
      partitionName ≠ "" ∨ ∃ c ∈ pre.toList,
        'a' ≤ c ∧ c ≤ 'z' ∨ '0' ≤ c ∧ c ≤ '9' ∨ 'A' ≤ c ∧ c ≤ 'Z' := by
  by_cases named : partitionName ≠ ""
  · constructor
    · exact fun _ => .inl named
    · intro _
      exact ⟨valid_of_named named pre, (partitionRoom_add partitionName pre).1⟩
  · rw [not_not] at named
    subst named
    have kept : (∃ c ∈ pre.toList, 'a' ≤ c ∧ c ≤ 'z' ∨ '0' ≤ c ∧ c ≤ '9' ∨ 'A' ≤ c ∧ c ≤ 'Z') ↔
        sanitizeFragment pre 51 ≠ "" := by
      rw [ne_eq, sanitizeFragment_eq_empty (by decide)]
      push Not
      apply exists_congr
      intro c
      rw [IsKept, IsNameChar, or_assoc]
    rw [sanitizeDatabaseName_empty, kept]
    constructor
    · intro valid
      exact .inr valid.1.nonempty
    · rintro (contradiction | nonempty)
      · exact absurd rfl contradiction
      · obtain ⟨word, short⟩ := sanitizeFragment_word pre 51
        exact ⟨(word.resolve_left nonempty).valid short, (partitionRoom_add "" pre).1⟩

/-- Without a partition name a prefix of symbols alone leaves no name at all. -/
theorem empty_database_name : ¬ ∀ partitionName pre : String,
    ValidDatabaseName (sanitizeDatabaseName partitionName pre) ∧
      (namedDatabasePrefix pre).utf8ByteSize + (stableHashHex partitionName).utf8ByteSize + 2 ≤
        51 := by
  intro valid
  have empty : sanitizeDatabaseName "" "::" = "" := by decide +kernel
  exact (valid "" "::").1.nonempty empty

end WeeEvents.Turso
