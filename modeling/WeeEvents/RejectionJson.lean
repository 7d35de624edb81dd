import WeeEvents.Service

/-!
# Rejections as JSON

The derived deserialiser of a rejection, which goes through the members of an
object one at a time or takes the items of an array by position, and what it
accepts.
-/
namespace WeeEvents

/-- The values of a key, in the order in which they are written. -/
def valuesOf (key : String) (members : List (String × Json)) : List Json :=
  (members.filter (·.1 = key)).map Prod.snd

/-- `Value::get` on what was read from a text: of several members with one key the last counts. -/
def Json.get (value : Json) (key : String) : Option Json :=
  match value with
  | .object members => (valuesOf key members).getLast?
  | _ => none

def Json.asStr : Json → Option String
  | .string s => some s
  | _ => none

/-- What the visitor has read so far. -/
structure RejectionFields where
  code : Option String := none
  message : Option String := none
  context : Option Json := none

/-- One member of the object. A field may come only once, and the two texts must be texts. -/
def RejectionFields.read (fields : RejectionFields) (key : String) (value : Json) :
    Option RejectionFields :=
  if key = "code" then
    if fields.code.isSome then none
    else value.asStr.map fun code => { fields with code := some code }
  else if key = "message" then
    if fields.message.isSome then none
    else value.asStr.map fun message => { fields with message := some message }
  else if key = "context" then
    if fields.context.isSome then none
    else some { fields with context := some value }
  else some fields

def defaultContext : Json := .object []

def RejectionFields.finish (fields : RejectionFields) : Option Rejection :=
  match fields.code, fields.message with
  | some code, some message => some ⟨code, message, fields.context.getD defaultContext⟩
  | _, _ => none

def visitMap : List (String × Json) → RejectionFields → Option Rejection
  | [], fields => fields.finish
  | (key, value) :: rest, fields =>
      match fields.read key value with
      | none => none
      | some fields => visitMap rest fields

def visitSeq : List Json → Option Rejection
  | [.string code, .string message] => some ⟨code, message, defaultContext⟩
  | [.string code, .string message, context] => some ⟨code, message, context⟩
  | _ => none

/-- `Deserialize for Rejection`; why it fails is never looked at. -/
def Rejection.deserialize : Json → Option Rejection
  | .object members => visitMap members {}
  | .array items => visitSeq items
  | _ => none

/-- `serde_json::from_str::<Rejection>` -/
def Rejection.fromStr [SerdeJson] (text : String) : Option Rejection :=
  match SerdeJson.fromText text with
  | .ok value => deserialize value
  | .error _ => none

/-! ### What is accepted -/

/-- Object members that spell a rejection: each text field once, the context at most once. -/
structure Rejection.Spelled (r : Rejection) (members : List (String × Json)) : Prop where
  code : valuesOf "code" members = [.string r.code]
  message : valuesOf "message" members = [.string r.message]
  context : valuesOf "context" members = [r.context] ∨
    valuesOf "context" members = [] ∧ r.context = defaultContext

/-- The forms in which a rejection can be written. -/
inductive Rejection.WrittenAs (r : Rejection) : Json → Prop
  | members {members : List (String × Json)} : r.Spelled members → WrittenAs r (.object members)
  | items : WrittenAs r (.array [.string r.code, .string r.message, r.context])
  | pair : r.context = defaultContext → WrittenAs r (.array [.string r.code, .string r.message])

theorem valuesOf_cons_self (key : String) (value : Json) (rest : List (String × Json)) :
    valuesOf key ((key, value) :: rest) = value :: valuesOf key rest := by
  simp [valuesOf]

theorem valuesOf_cons_ne {key other : String} (ne : other ≠ key) (value : Json)
    (rest : List (String × Json)) : valuesOf key ((other, value) :: rest) = valuesOf key rest := by
  simp [valuesOf, ne]

/-- The text of a field is complete when what was read and what is still to come is one text. -/
def TextDue (read : Option String) (rest : List Json) (text : String) : Prop :=
  read.toList.map Json.string ++ rest = [.string text]

def ContextDue (read : Option Json) (rest : List Json) (context : Json) : Prop :=
  read.toList ++ rest = [context] ∨ read.toList ++ rest = [] ∧ context = defaultContext

theorem textDue_second {text : String} {read : String} {value : Json} {rest : List Json} :
    ¬ TextDue (some read) (value :: rest) text := by
  intro due
  have long := congrArg List.length due
  simp at long

theorem textDue_first {text : String} {value : Json} {rest : List Json} :
    TextDue none (value :: rest) text ↔
      ∃ read, value.asStr = some read ∧ TextDue (some read) rest text := by
  cases value with
  | string s => simp [TextDue, Json.asStr]
  | _ => simp [TextDue, Json.asStr]

theorem contextDue_second {context read value : Json} {rest : List Json} :
    ¬ ContextDue (some read) (value :: rest) context := by
  rintro (due | ⟨due, _⟩)
  · have long := congrArg List.length due
    simp at long
  · cases due

theorem contextDue_first {context value : Json} {rest : List Json} :
    ContextDue none (value :: rest) context ↔ ContextDue (some value) rest context := Iff.rfl

/-- The visitor succeeds exactly on members that complete the fields it has. -/
theorem visitMap_iff {members : List (String × Json)} {fields : RejectionFields} {r : Rejection} :
    visitMap members fields = some r ↔
      TextDue fields.code (valuesOf "code" members) r.code ∧
      TextDue fields.message (valuesOf "message" members) r.message ∧
      ContextDue fields.context (valuesOf "context" members) r.context := by
  induction members generalizing fields with
  | nil =>
      obtain ⟨code, message, context⟩ := fields
      obtain ⟨rcode, rmessage, rcontext⟩ := r
      cases code with
      | none => simp [visitMap, RejectionFields.finish, TextDue, valuesOf]
      | some code =>
          cases message with
          | none => simp [visitMap, RejectionFields.finish, TextDue, valuesOf]
          | some message =>
              cases context with
              | none => simp [visitMap, RejectionFields.finish, TextDue, ContextDue, valuesOf, eq_comm]
              | some context => simp [visitMap, RejectionFields.finish, TextDue, ContextDue, valuesOf]
  | cons member rest ih =>
      obtain ⟨key, value⟩ := member
      rw [visitMap]
      by_cases isCode : key = "code"
      · subst isCode
        rw [valuesOf_cons_self, valuesOf_cons_ne (by decide), valuesOf_cons_ne (by decide)]
        cases known : fields.code with
        | some code =>
            simp only [RejectionFields.read, known, if_true, Option.isSome_some, reduceCtorEq,
              textDue_second, false_and]
        | none =>
            rw [textDue_first]
            cases isText : value.asStr with
            | none => simp [RejectionFields.read, known, isText]
            | some code => simp [RejectionFields.read, known, isText, ih]
      by_cases isMessage : key = "message"
      · subst isMessage
        rw [valuesOf_cons_self, valuesOf_cons_ne (by decide), valuesOf_cons_ne (by decide)]
        cases known : fields.message with
        | some message =>
            simp only [RejectionFields.read, known, if_true, Option.isSome_some, reduceCtorEq,
              textDue_second, false_and, and_false, isCode, if_false]
        | none =>
            rw [textDue_first]
            cases isText : value.asStr with
            | none => simp [RejectionFields.read, known, isText]
            | some message => simp [RejectionFields.read, known, isText, ih]
      by_cases isContext : key = "context"
      · subst isContext
        rw [valuesOf_cons_self, valuesOf_cons_ne (by decide), valuesOf_cons_ne (by decide)]
        cases known : fields.context with
        | some context =>
            simp only [RejectionFields.read, known, if_true, Option.isSome_some, reduceCtorEq,
              contextDue_second, and_false, isCode, isMessage, if_false]
        | none =>
            rw [contextDue_first]
            simp [RejectionFields.read, known, ih]
      · rw [valuesOf_cons_ne isCode, valuesOf_cons_ne isMessage, valuesOf_cons_ne isContext]
        simp only [RejectionFields.read, isCode, isMessage, isContext, if_false]
        exact ih

/-- A rejection is read from exactly the forms in which it can be written. -/
theorem deserialize_iff {value : Json} {r : Rejection} :
    Rejection.deserialize value = some r ↔ r.WrittenAs value := by
  cases value with
  | object members =>
      rw [Rejection.deserialize, visitMap_iff]
      constructor
      · rintro ⟨code, message, context⟩
        exact .members ⟨code, message, context⟩
      · rintro ⟨⟨code, message, context⟩⟩
        exact ⟨code, message, context⟩
  | array items =>
      rw [Rejection.deserialize]
      constructor
      · intro isRead
        unfold visitSeq at isRead
        split at isRead
        · cases isRead
          exact .pair rfl
        · cases isRead
          exact .items
        · cases isRead
      · intro written
        cases written with
        | items => rfl
        | pair default =>
            rw [visitSeq, ← default]
  | _ =>
      constructor
      · intro isRead
        cases isRead
      · intro written
        cases written

end WeeEvents
