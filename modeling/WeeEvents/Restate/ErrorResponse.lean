import WeeEvents.RejectionJson
import WeeEvents.Restate.Binding

/-!
# Rejections across the wire

A handler's error travels as the text of a terminal error inside the ingress
body. The client takes the body, and then the text inside it, for a rejection if
it reads as one. The texts of codec errors never do; those of store errors may.
-/
namespace WeeEvents.Restate

/-- The errors that the client makes of an error response. -/
inductive ClientError where
  | backend (text : String)
  | rejection (r : Rejection)

/-- A response with an error status, as far as it is read: its text, if it arrives. -/
structure ErrorResponse where
  body : Except String String

def ErrorResponse.text (resp : ErrorResponse) : String :=
  match resp.body with
  | .ok text => text
  | .error _ => ""

/-- The text under the envelope's message. -/
def envelopeMessage [SerdeJson] (text : String) : Option String :=
  match SerdeJson.fromText text with
  | .ok envelope => (envelope.get "message").bind Json.asStr
  | .error _ => none

/-- The two shapes that both copies try, in order. -/
def readError [SerdeJson] (text : String) : ClientError :=
  match Rejection.fromStr text with
  | some rejection => .rejection rejection
  | none =>
      match (envelopeMessage text).bind Rejection.fromStr with
      | some rejection => .rejection rejection
      | none => .backend text

/-- `generated::parse_error_response` -/
def parseErrorResponse [SerdeJson] (resp : ErrorResponse) : ClientError := readError resp.text

/-- The error branch of `RestateClient::execute_idempotent`. -/
def executeIdempotentError [SerdeJson] (resp : ErrorResponse) : ClientError := readError resp.text

/-! ### The texts of errors -/

def Encoding.debug : Encoding → String
  | .json => "Json"
  | .cbor => "Cbor"

instance displayEncodeError : Display EncodeError where
  toText
    | .json message => "json encode: " ++ message
    | .cbor message => "cbor encode: " ++ message

instance displayDecodeError : Display DecodeError where
  toText
    | .unknownEncoding encoding => "unknown encoding: " ++ encoding
    | .encodingMismatch expected actual =>
        "encoding mismatch: expected " ++ Encoding.debug expected ++ ", actual " ++
          Encoding.debug actual
    | .json message => "json decode: " ++ message
    | .cbor message => "cbor decode: " ++ message

instance displayCodecError : Display CodecError where
  toText
    | .encode e => Display.toText e
    | .decode e => Display.toText e

/-- White space, or the first character of a JSON value. -/
def startsJson (c : Char) : Bool :=
  c.isWhitespace || c.isDigit || ['[', '\x7b', '\x22', '-', 't', 'f', 'n'].contains c

/-- The parser accepts no text that starts otherwise, nor the empty one. -/
def StartsJson [SerdeJson] : Prop :=
  ∀ text value, SerdeJson.fromText text = .ok value → ∃ c, text.toList.head? = some c ∧
    startsJson c = true

/-- The ingress body of a terminal error: an object with a numeric code and the error's text. -/
def IngressBody [SerdeJson] (error : HandlerError) (body : String) : Prop :=
  ∃ members digits, SerdeJson.fromText body = .ok (.object members) ∧
    ("code", .number digits) ∈ members ∧ valuesOf "message" members = [.string error.message]

theorem head_append {pre rest : String} {c : Char} (first : pre.toList.head? = some c) :
    (pre ++ rest).toList.head? = some c := by
  rw [String.toList_append, List.head?_append, first]
  rfl

theorem head_codecError (e : CodecError) :
    ∃ c, (Display.toText e).toList.head? = some c ∧ startsJson c = false := by
  cases e with
  | encode e =>
      cases e with
      | json message => exact ⟨'j', head_append rfl, rfl⟩
      | cbor message => exact ⟨'c', head_append rfl, rfl⟩
  | decode e =>
      cases e with
      | unknownEncoding encoding => exact ⟨'u', head_append rfl, rfl⟩
      | encodingMismatch expected actual =>
          exact ⟨'e', head_append (head_append (head_append rfl)), rfl⟩
      | json message => exact ⟨'j', head_append rfl, rfl⟩
      | cbor message => exact ⟨'c', head_append rfl, rfl⟩

/-- The object that a rejection is printed as. -/
def rejectionObject (r : Rejection) : Json :=
  .object [("code", .string r.code), ("context", r.context), ("message", .string r.message)]

section Reading

variable [SerdeJson] {text body : String} {r : Rejection} {error : HandlerError}

theorem fromStr_iff : Rejection.fromStr text = some r ↔
    ∃ value, SerdeJson.fromText text = .ok value ∧ r.WrittenAs value := by
  unfold Rejection.fromStr
  constructor
  · intro isRead
    split at isRead
    · next value parsed => exact ⟨value, parsed, deserialize_iff.mp isRead⟩
    · cases isRead
  · rintro ⟨value, parsed, written⟩
    rw [parsed]
    exact deserialize_iff.mpr written

/-- No text of a codec error is JSON. -/
theorem fromStr_codecError (starts : StartsJson) (e : CodecError) :
    Rejection.fromStr (Display.toText e) = none := by
  rw [Option.eq_none_iff_forall_ne_some]
  intro r isRead
  obtain ⟨value, parsed, _⟩ := fromStr_iff.mp isRead
  obtain ⟨c, first, isJson⟩ := starts _ _ parsed
  obtain ⟨c', first', notJson⟩ := head_codecError e
  rw [first] at first'
  cases first'
  rw [isJson] at notJson
  cases notJson

/-- A rejection is read back from its text. -/
theorem fromStr_rejection (reads : (rejectionObject r).ReadsBack) :
    Rejection.fromStr (SerdeJson.toText (rejectionObject r)) = some r := by
  apply fromStr_iff.mpr
  refine ⟨_, reads, .members ?_⟩
  exact ⟨rfl, rfl, .inl rfl⟩

/-- A numeric code is no rejection's code. -/
theorem fromStr_ingressBody (ingress : IngressBody error body) : Rejection.fromStr body = none := by
  rw [Option.eq_none_iff_forall_ne_some]
  intro r isRead
  obtain ⟨members, digits, parsed, code, _⟩ := ingress
  obtain ⟨value, parsed', written⟩ := fromStr_iff.mp isRead
  obtain rfl : value = .object members := Except.ok.inj (parsed'.symm.trans parsed)
  cases written with
  | members spelled =>
      have inside : Json.number digits ∈ valuesOf "code" members := by
        apply List.mem_map.mpr
        exact ⟨_, List.mem_filter.mpr ⟨code, rfl⟩, rfl⟩
      rw [spelled.code] at inside
      cases List.mem_singleton.mp inside

theorem envelopeMessage_ingressBody (ingress : IngressBody error body) :
    envelopeMessage body = some error.message := by
  obtain ⟨members, digits, parsed, _, message⟩ := ingress
  simp only [envelopeMessage, parsed, Json.get, message]
  rfl

/-- The client reads the handler's error, and nothing of the envelope, as a rejection. -/
theorem readError_iff (ingress : IngressBody error body) :
    readError body = .rejection r ↔ Rejection.fromStr error.message = some r := by
  unfold readError
  rw [fromStr_ingressBody ingress, envelopeMessage_ingressBody ingress]
  dsimp only [Option.bind_some]
  cases found : Rejection.fromStr error.message with
  | some rejection => simp
  | none => simp

end Reading

/-- What the handler's error is, or says, when the client reports the rejection. -/
def Rejects {E : Type} [SerdeJson] [Display E] (r : Rejection) : ServiceError E → Prop
  | .rejection rejection => rejection = r
  | .store err => ∃ value, SerdeJson.fromText (Display.toText err) = .ok value ∧ r.WrittenAs value
  | .codec _ => False

/-- The client reports a rejection exactly when the handler's error was that rejection, or a
store error whose text is the JSON of that rejection. -/
theorem rejection_reported_iff {E : Type} [SerdeJson] [Display E] (starts : StartsJson)
    (err : ServiceError E) {body : String}
    (ingress : IngressBody (IntoHandlerError.toHandlerError err) body)
    (reads : ∀ rejection, err = .rejection rejection → (rejectionObject rejection).ReadsBack) (r : Rejection) :
    (parseErrorResponse ⟨.ok body⟩ = .rejection r ↔ Rejects r err) ∧
    (executeIdempotentError ⟨.ok body⟩ = .rejection r ↔ Rejects r err) := by
  have both : readError body = .rejection r ↔ Rejects r err := by
    rw [readError_iff ingress]
    cases err with
    | rejection rejection =>
        have read := fromStr_rejection (reads rejection rfl)
        constructor
        · intro isRead
          exact Option.some.inj (read.symm.trans isRead)
        · rintro rfl
          exact read
    | store err => exact fromStr_iff
    | codec err =>
        have none : Rejection.fromStr (Display.toText err) = none := fromStr_codecError starts err
        constructor
        · intro isRead
          cases none.symm.trans isRead
        · exact False.elim
  exact ⟨both, both⟩

/-! ### A store error that quotes a rejection -/

section Quoted

def overLimit : Rejection where
  code := "LIMIT_EXCEEDED"
  message := "over the limit"

def overLimitJson : Json := .object
  [("code", .string "LIMIT_EXCEEDED"), ("context", .object []), ("message", .string "over the limit")]

def overLimitText : String :=
  "\x7b\"code\":\"LIMIT_EXCEEDED\",\"context\":\x7b\x7d,\"message\":\"over the limit\"\x7d"

def ingressJson : Json := .object [("code", .number "500"), ("message", .string overLimitText)]

def ingressText : String :=
  "\x7b\"code\":500,\"message\":\"\x7b\\\"code\\\":\\\"LIMIT_EXCEEDED\\\",\\\"context\\\":\x7b\x7d," ++
    "\\\"message\\\":\\\"over the limit\\\"\x7d\"\x7d"

def ingressTexts : JsonTexts where
  entries := [(overLimitJson.tree, overLimitText), (ingressJson.tree, ingressText)]
  distinct := by decide
  uncoded := by decide

local instance ingressSerde : SerdeJson := ingressTexts.serdeJson

theorem ingressTexts_start : StartsJson := by
  intro text value isRead
  rcases JsonTexts.read_ok isRead with ⟨entry, member, rfl⟩ | bracket
  · have starts : ∀ entry ∈ ingressTexts.entries, entry.2.toList.head? = some '\x7b' := by
      decide
    exact ⟨_, starts entry member, rfl⟩
  · exact ⟨_, bracket, rfl⟩

theorem overLimit_printed : SerdeJson.toText overLimitJson = overLimitText := by
  show ingressTexts.print overLimitJson = overLimitText
  decide +kernel

theorem ingress_printed : SerdeJson.toText ingressJson = ingressText := by
  show ingressTexts.print ingressJson = ingressText
  decide +kernel

theorem ingress_overLimit {error : HandlerError} (same : error.message = overLimitText) :
    IngressBody error ingressText := by
  refine ⟨[("code", .number "500"), ("message", .string overLimitText)], "500", ?_,
    List.mem_cons_self .., ?_⟩
  · rw [← ingress_printed]
    exact ingressTexts.readsBack ingressJson
  · rw [same]
    rfl

/-- The rejection arrives. -/
theorem overLimit_arrives : parseErrorResponse ⟨.ok ingressText⟩ = .rejection overLimit :=
  (rejection_reported_iff (E := JsonError) ingressTexts_start (.rejection overLimit)
    (ingress_overLimit overLimit_printed) (fun rejection _ => ingressTexts.readsBack (rejectionObject rejection))
    overLimit).1.mpr rfl

/-- So does a store error that quotes it. -/
theorem quoted_rejection_reported : ¬ ∀ (err : ServiceError JsonError) (body : String)
    (r : Rejection), IngressBody (IntoHandlerError.toHandlerError err) body →
      (parseErrorResponse ⟨.ok body⟩ = .rejection r ↔ err = .rejection r) := by
  intro only
  have quoted : IngressBody (IntoHandlerError.toHandlerError
      (.store ⟨overLimitText⟩ : ServiceError JsonError)) ingressText := ingress_overLimit rfl
  have isRead : Rejection.fromStr overLimitText = some overLimit := by
    rw [← overLimit_printed]
    exact fromStr_rejection (ingressTexts.readsBack (rejectionObject overLimit))
  have same := (only (.store ⟨overLimitText⟩) ingressText overLimit quoted).mp
    ((readError_iff quoted).mpr isRead)
  cases same

end Quoted

end WeeEvents.Restate
