import Mathlib

/-!
# JSON

JSON values and what serialising types to them and printing them means here. The
text format itself is a third-party crate: it is a parameter. It does not read back
every value that it prints, as the nesting it reads is limited and a float may lose
its last digits, so where a value has to be read back that is said of the value.
-/
namespace WeeEvents

/-- `serde_json::Value`, its numbers and object members as they are printed. -/
inductive Json where
  | null
  | bool (b : Bool)
  | number (digits : String)
  | string (s : String)
  | array (items : List Json)
  | object (members : List (String × Json))

/-- Why a value cannot be serialised or a text cannot be read. -/
structure JsonError where
  message : String
  deriving DecidableEq, Repr

/-- `serde_json::to_string` and `serde_json::from_str` on values. -/
class SerdeJson where
  toText : Json → String
  fromText : String → Except JsonError Json

/-- The value is found again in the text that it is printed as. -/
def Json.ReadsBack [SerdeJson] (value : Json) : Prop :=
  SerdeJson.fromText (SerdeJson.toText value) = .ok value

/-- `Serialize`, as far as `serde_json::to_value` uses it. -/
class Serialize (S : Type) where
  toValue : S → Except JsonError Json

def Json.digits : Json → String
  | .number digits => digits
  | _ => ""

instance : Serialize Nat := ⟨fun n => .ok (.number (toString n))⟩

instance : Serialize Unit := ⟨fun _ => .ok .null⟩

/-! ### A printer with its inverse

Whole numbers are printed as JSON prints them, any other value in a code of its own. -/

instance encodableString : Encodable String :=
  Encodable.ofLeftInjection (fun s => s.toList.map Char.toNat)
    (fun codes => some (String.ofList (codes.map Char.ofNat))) fun s => by
      rw [List.map_map, show Char.ofNat ∘ Char.toNat = id from funext Char.ofNat_toNat, List.map_id,
        String.ofList_toList]

inductive JsonTree where
  | leaf (kind : Nat) (text : String)
  | cell (key : String) (head tail : JsonTree)
  deriving Encodable, DecidableEq

mutual

def Json.tree : Json → JsonTree
  | .null => .leaf 0 ""
  | .bool false => .leaf 1 ""
  | .bool true => .leaf 2 ""
  | .number digits => .leaf 3 digits
  | .string s => .leaf 4 s
  | .array items => .cell "array" (.leaf 0 "") (itemsTree items)
  | .object members => .cell "object" (.leaf 0 "") (membersTree members)

def itemsTree : List Json → JsonTree
  | [] => .leaf 0 ""
  | item :: rest => .cell "" item.tree (itemsTree rest)

def membersTree : List (String × Json) → JsonTree
  | [] => .leaf 0 ""
  | (key, value) :: rest => .cell key value.tree (membersTree rest)

end

mutual

def JsonTree.json : JsonTree → Json
  | .leaf 0 _ => .null
  | .leaf 1 _ => .bool false
  | .leaf 2 _ => .bool true
  | .leaf 3 text => .number text
  | .leaf _ text => .string text
  | .cell kind _ tail => if kind = "array" then .array tail.items else .object tail.members

def JsonTree.items : JsonTree → List Json
  | .leaf _ _ => []
  | .cell _ head tail => head.json :: tail.items

def JsonTree.members : JsonTree → List (String × Json)
  | .leaf _ _ => []
  | .cell key head tail => (key, head.json) :: tail.members

end

mutual

theorem json_tree : ∀ value : Json, value.tree.json = value
  | .null => rfl
  | .bool false => rfl
  | .bool true => rfl
  | .number _ => rfl
  | .string _ => rfl
  | .array items => by
      simp only [Json.tree, JsonTree.json, if_true]
      rw [items_itemsTree items]
  | .object members => by
      simp only [Json.tree, JsonTree.json]
      rw [if_neg (by decide), members_membersTree members]

theorem items_itemsTree : ∀ items : List Json, (itemsTree items).items = items
  | [] => rfl
  | item :: rest => by
      simp only [itemsTree, JsonTree.items]
      rw [json_tree item, items_itemsTree rest]

theorem members_membersTree : ∀ members : List (String × Json),
    (membersTree members).members = members
  | [] => rfl
  | (key, value) :: rest => by
      simp only [membersTree, JsonTree.members]
      rw [json_tree value, members_membersTree rest]

end

def isWholeNumber (text : String) : Bool := !text.isEmpty && text.toList.all Char.isDigit

/-- The code of a value, as the length of a text. -/
def Json.code (value : Json) : String :=
  String.ofList (List.replicate (Encodable.encode value.tree + 1) '#')

theorem not_isWholeNumber_code (value : Json) : isWholeNumber value.code = false := by
  simp [isWholeNumber, Json.code, List.replicate_succ]

def Json.wholeNumberText (value : Json) : String :=
  match value with
  | .number digits => if isWholeNumber digits then digits else value.code
  | _ => value.code

def readWholeNumber (text : String) : Except JsonError Json :=
  if isWholeNumber text then .ok (.number text)
  else match (Encodable.decode (text.length - 1) : Option JsonTree) with
    | none => .error ⟨"expected value"⟩
    | some tree => .ok tree.json

theorem readWholeNumber_text (value : Json) : readWholeNumber value.wholeNumberText = .ok value := by
  have coded : readWholeNumber value.code = .ok value := by
    rw [readWholeNumber, not_isWholeNumber_code]
    simp [Json.code, json_tree]
  cases value with
  | number digits =>
      rw [Json.wholeNumberText]
      split
      · next whole => rw [readWholeNumber, if_pos whole]
      · exact coded
  | null => exact coded
  | bool b => exact coded
  | string s => exact coded
  | array items => exact coded
  | object members => exact coded

@[reducible] def wholeNumberJson : SerdeJson where
  toText := Json.wholeNumberText
  fromText := readWholeNumber

theorem readsBack_wholeNumberJson (value : Json) : @Json.ReadsBack wholeNumberJson value :=
  readWholeNumber_text value

/-! ### A printer with given texts

The listed values have their listed texts, any other value a code in brackets. -/

structure JsonTexts where
  entries : List (JsonTree × String)
  distinct : (entries.map Prod.snd).Nodup
  uncoded : ∀ entry ∈ entries, entry.2.toList.getLast? ≠ some '#'

def Json.bracketed (value : Json) : String :=
  String.ofList ('[' :: List.replicate (Encodable.encode value.tree + 1) '#')

theorem getLast_bracketed (value : Json) : value.bracketed.toList.getLast? = some '#' := by
  rw [Json.bracketed, String.toList_ofList, List.replicate_succ', ← List.cons_append,
    List.getLast?_concat]

def JsonTexts.print (texts : JsonTexts) (value : Json) : String :=
  match texts.entries.find? (·.1 = value.tree) with
  | some entry => entry.2
  | none => value.bracketed

def JsonTexts.read (texts : JsonTexts) (text : String) : Except JsonError Json :=
  match texts.entries.find? (·.2 = text) with
  | some entry => .ok entry.1.json
  | none =>
      if text.toList.head? = some '[' then
        match (Encodable.decode (text.length - 2) : Option JsonTree) with
        | none => .error ⟨"expected value"⟩
        | some tree => .ok tree.json
      else .error ⟨"expected value"⟩

theorem JsonTexts.read_print (texts : JsonTexts) (value : Json) :
    texts.read (texts.print value) = .ok value := by
  unfold JsonTexts.print
  cases listed : texts.entries.find? (·.1 = value.tree) with
  | some entry =>
      have member := List.mem_of_find?_eq_some listed
      have same : entry.1 = value.tree := by simpa using List.find?_some listed
      have found : texts.entries.find? (·.2 = entry.2) = some entry := by
        cases other : texts.entries.find? (·.2 = entry.2) with
        | none => exact absurd (decide_eq_true rfl) (List.find?_eq_none.mp other entry member)
        | some entry' =>
            have sameText : entry'.2 = entry.2 := by simpa using List.find?_some other
            rw [List.inj_on_of_nodup_map texts.distinct (List.mem_of_find?_eq_some other) member
              sameText]
      simp only [JsonTexts.read, found, same, json_tree]
  | none =>
      have unlisted : texts.entries.find? (·.2 = value.bracketed) = none := by
        rw [List.find?_eq_none]
        intro entry member same
        apply texts.uncoded entry member
        rw [of_decide_eq_true same]
        exact getLast_bracketed value
      have first : value.bracketed.toList.head? = some '[' := by
        rw [Json.bracketed, String.toList_ofList]
        rfl
      have long : value.bracketed.length - 2 = Encodable.encode value.tree := by
        rw [Json.bracketed, String.length_ofList, List.length_cons, List.length_replicate]
        rfl
      simp only [JsonTexts.read, unlisted, first, if_true, long, Encodable.encodek, json_tree]

@[reducible] def JsonTexts.serdeJson (texts : JsonTexts) : SerdeJson where
  toText := texts.print
  fromText := texts.read

theorem JsonTexts.readsBack (texts : JsonTexts) (value : Json) : @Json.ReadsBack texts.serdeJson value :=
  texts.read_print value

/-- What it reads was listed, or starts with a bracket. -/
theorem JsonTexts.read_ok {texts : JsonTexts} {text : String} {value : Json}
    (isRead : texts.read text = .ok value) :
    (∃ entry ∈ texts.entries, entry.2 = text) ∨ text.toList.head? = some '[' := by
  unfold JsonTexts.read at isRead
  cases listed : texts.entries.find? (·.2 = text) with
  | some entry =>
      exact .inl ⟨entry, List.mem_of_find?_eq_some listed, by simpa using List.find?_some listed⟩
  | none =>
      simp only [listed] at isRead
      split at isRead
      · next bracket => exact .inr bracket
      · cases isRead

end WeeEvents
