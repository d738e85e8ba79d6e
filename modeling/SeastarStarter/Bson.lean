import SeastarStarter.Lib.Utf8

/-!
# bsoncxx as the request handler uses it

Documents are lists of fields in order; `elem doc "k"` is `doc.view()["k"]` (the first field of
that name) and a typed getter on an absent element, or on an element of another type, throws.
JSON parsing, JSON printing and the formatting of exceptions are library code: `Bsoncxx` holds
them as parameters, `Bsoncxx.Prints` what is documented of the JSON of a document, and
`Bsoncxx.Lawful` of the texts of exceptions as well.
-/

namespace SeastarStarter

/-- A literal of the source; all of them are ASCII. -/
def text (s : String) : Bytes := s.toList.map fun c => UInt8.ofNat c.toNat

/-- The BSON types that no code here reads. -/
inductive OtherType where
  | binary | undefined | oid | date | regex | dbpointer | code | symbol | codewscope | timestamp
  | decimal128 | maxkey | minkey
deriving DecidableEq

/-- `bsoncxx::type`. -/
inductive BsonType where
  | double | string | document | array | bool | null | int32 | int64
  | other (t : OtherType)
deriving DecidableEq

inductive Value where
  | double (bits : UInt64)
  | string (s : Bytes)
  | document (fields : List (Bytes × Value))
  | array (elems : List Value)
  | bool (b : Bool)
  | null
  | int32 (n : Int32)
  | int64 (n : Int64)
  | other (t : OtherType) (raw : Bytes)

def Value.type : Value → BsonType
  | .double _ => .double
  | .string _ => .string
  | .document _ => .document
  | .array _ => .array
  | .bool _ => .bool
  | .null => .null
  | .int32 _ => .int32
  | .int64 _ => .int64
  | .other t _ => .other t

abbrev Document := List (Bytes × Value)

/-- `document::element`: absent, or the value of a field. -/
abbrev Element := Option Value

/-- `doc.view()["key"]`; also what `find("key")` points at. -/
def elem (doc : Document) (key : String) : Element := (doc.find? fun f => f.1 = text key).map (·.2)

/-! ## Exceptions and typed getters -/

/-- `bsoncxx::error_code` of the element accessors. -/
inductive ElementError where
  | unsetElement
  | needElementType (t : BsonType)
deriving DecidableEq

inductive Exn where
  /-- `std::runtime_error`, thrown by main.cc itself. -/
  | runtimeError (what : Bytes)
  | element (err : ElementError)
  /-- `from_json` or `to_json` failed. -/
  | json (what : Bytes)
  /-- `mongocxx::exception`. -/
  | driver (what : Bytes)
deriving DecidableEq

/-- A typed getter: `read` recognises the values of type `t`. -/
def typedGetter {α : Type} (t : BsonType) (read : Value → Option α) : Element → Except Exn α
  | none => .error (.element .unsetElement)
  | some v =>
    match read v with
    | some a => .ok a
    | none => .error (.element (.needElementType t))

def Value.string? : Value → Option Bytes
  | .string s => some s
  | _ => none

def Value.document? : Value → Option Document
  | .document d => some d
  | _ => none

def Value.array? : Value → Option (List Value)
  | .array elems => some elems
  | _ => none

def Value.bool? : Value → Option Bool
  | .bool b => some b
  | _ => none

def Value.int32? : Value → Option Int32
  | .int32 n => some n
  | _ => none

def getString : Element → Except Exn Bytes := typedGetter .string Value.string?
def getDocument : Element → Except Exn Document := typedGetter .document Value.document?
def getArray : Element → Except Exn (List Value) := typedGetter .array Value.array?
def getBool : Element → Except Exn Bool := typedGetter .bool Value.bool?
def getInt32 : Element → Except Exn Int32 := typedGetter .int32 Value.int32?

/-- `element.get_value()`. -/
def getValue : Element → Except Exn Value
  | none => .error (.element .unsetElement)
  | some v => .ok v

/-- `element.type()`. -/
def getType : Element → Except Exn BsonType
  | none => .error (.element .unsetElement)
  | some v => .ok v.type

/-- `if (e) { ... e.get_xxx() ... }`: absent is left out, present is read. -/
def whenSet {α : Type} (e : Element) (get : Element → Except Exn α) : Except Exn (Option α) :=
  if e.isSome then do return some (← get e) else return none

/-! ## What a getter accepts -/

section
variable {α : Type} {t : BsonType} {read : Value → Option α}

@[simp] theorem toOption_typedGetter (e : Element) : (typedGetter t read e).toOption = e.bind read := by
  cases e with
  | none => rfl
  | some v =>
    unfold typedGetter
    cases hv : read v <;> simp [hv, Except.toOption]

end

/-! ## The library functions -/

structure Bsoncxx where
  /-- `bsoncxx::from_json`. -/
  fromJson : Bytes → Except Exn Document
  /-- `bsoncxx::to_json`. -/
  toJson : Document → Except Exn Bytes
  /-- `fmt::format("{}", exception)`. -/
  format : Exn → Bytes

/-- `make_document(kvp("error", s))`. -/
def errorDoc (s : Bytes) : Document := [(text "error", .string s)]

/-- `make_document(kvp("result", "ok"))`. -/
def okDoc : Document := [(text "result", .string (text "ok"))]

/-- `make_document(kvp("result", "ok"), kvp("data", res))`. -/
def okData (res : Document) : Document :=
  [(text "result", .string (text "ok")), (text "data", .document res)]

/-- What is documented of the texts that `to_json` returns. -/
structure Bsoncxx.Prints (lib : Bsoncxx) : Prop where
  /-- A document of one string is printed exactly when the string is valid UTF-8. -/
  toJson_string : ∀ key s, Utf8.Ascii key →
    ((∃ j, lib.toJson [(key, .string s)] = .ok j) ↔ Utf8.Valid s)
  /-- The text of an object shows its keys. -/
  toJson_keys : ∀ d d' j, lib.toJson d = .ok j → lib.toJson d' = .ok j →
    d.map Prod.fst = d'.map Prod.fst

/-- `what()` is a C string: it ends before the first NUL of the message. -/
def cString (what : Bytes) : Bytes := what.takeWhile (· ≠ 0)

theorem cString_append {before : Bytes} (h : ∀ b ∈ before, b ≠ 0) (s : Bytes) :
    cString (before ++ s) = before ++ cString s :=
  List.takeWhile_append_of_pos fun b hb => by simpa using h b hb

/-- What is documented of the texts of exceptions, as well. -/
structure Bsoncxx.Lawful (lib : Bsoncxx) : Prop extends lib.Prints where
  /-- What `to_json` throws has a fixed message. -/
  toJson_error : ∀ d e, lib.toJson d = .error e → Utf8.Valid (lib.format e)
  /-- What the element accessors throw has fixed messages. -/
  format_element : ∀ err, Utf8.Valid (lib.format (.element err))
  /-- The `what()` of a `runtime_error` is printed as it is, between ASCII texts. -/
  format_runtimeError : ∀ what,
    Utf8.Valid (lib.format (.runtimeError what)) ↔ Utf8.Valid (cString what)

/-! ## A library that keeps the laws

`plain` prints the documents of one string, which are all that `handle` prints on the way to a
write's answer, and parses one given text. -/

def quoteByte : UInt8 := 0x22

def backslash : UInt8 := 0x5C

/-- The escapes of a JSON string, without those for control characters. -/
def escape (s : Bytes) : Bytes :=
  s.flatMap fun b => if b = quoteByte ∨ b = backslash then [backslash, b] else [b]

/-- `{ "key" : "s" }` -/
def render (key s : Bytes) : Bytes :=
  text "\x7b \"" ++ (escape key ++ quoteByte :: (text " : \"" ++ (escape s ++ text "\" \x7d")))

/-- The name of the exception's type and what it says. -/
def plainFormat : Exn → Bytes
  | .runtimeError what => text "std::runtime_error (" ++ cString what ++ text ")"
  | .element .unsetElement => text "bsoncxx::exception (unset document::element)"
  | .element (.needElementType _) => text "bsoncxx::exception (expected another element type)"
  | .json what => text "bsoncxx::exception (" ++ cString what ++ text ")"
  | .driver what => text "mongocxx::exception (" ++ cString what ++ text ")"

def Bsoncxx.plain (body : Bytes) (doc : Document) : Bsoncxx where
  fromJson s := if s = body then .ok doc else .error (.json (text "Got parse error"))
  toJson d :=
    match d with
    | [(key, .string s)] =>
      if Utf8.Valid key ∧ Utf8.Valid s then .ok (render key s)
      else .error (.json (text "could not append UTF-8"))
    | _ => .error (.json (text "could not convert to JSON"))
  format := plainFormat

/-- An escaped string ends at the first quote that stands by itself. -/
theorem escape_injective {s s' r r' : Bytes}
    (h : escape s ++ quoteByte :: r = escape s' ++ quoteByte :: r') : s = s' := by
  have hcons : ∀ b (l : Bytes), escape (b :: l) =
      (if b = quoteByte ∨ b = backslash then [backslash, b] else [b]) ++ escape l := fun b l => rfl
  induction s generalizing s' with
  | nil =>
    cases s' with
    | nil => rfl
    | cons b l =>
      rw [hcons] at h
      split_ifs at h with hb
      · exact absurd (List.cons.inj h).1 (by decide)
      · exact absurd (Or.inl (List.cons.inj h).1.symm) hb
  | cons a m ih =>
    cases s' with
    | nil =>
      rw [hcons] at h
      split_ifs at h with ha
      · exact absurd (List.cons.inj h).1 (by decide)
      · exact absurd (Or.inl (List.cons.inj h).1) ha
    | cons b l =>
      rw [hcons, hcons] at h
      split_ifs at h with ha hb hb <;> simp only [List.cons_append, List.nil_append] at h
      · obtain ⟨-, hescaped⟩ := List.cons.inj h
        obtain ⟨rfl, htail⟩ := List.cons.inj hescaped
        rw [ih htail]
      · exact absurd (Or.inr (List.cons.inj h).1.symm) hb
      · exact absurd (Or.inr (List.cons.inj h).1) ha
      · obtain ⟨rfl, htail⟩ := List.cons.inj h
        rw [ih htail]

theorem Bsoncxx.plain_toJson {body : Bytes} {doc d : Document} {j : Bytes}
    (h : (plain body doc).toJson d = .ok j) :
    ∃ key s, d = [(key, .string s)] ∧ j = render key s := by
  unfold plain at h
  dsimp only at h
  split at h
  · next key s =>
    split_ifs at h
    exact ⟨key, s, rfl, (Except.ok.inj h).symm⟩
  · cases h

/-- **The laws hold of a library that prints and parses.** -/
theorem Bsoncxx.plain_lawful (body : Bytes) (doc : Document) : (plain body doc).Lawful where
  toJson_string key s hkey := by
    constructor
    · rintro ⟨j, h⟩
      unfold plain at h
      dsimp only at h
      split_ifs at h with hv
      exact hv.2
    · intro hs
      exact ⟨render key s, if_pos ⟨hkey.valid, hs⟩⟩
  toJson_keys d d' j h h' := by
    obtain ⟨key, s, rfl, rfl⟩ := plain_toJson h
    obtain ⟨key', s', rfl, hr⟩ := plain_toJson h'
    rw [escape_injective (List.append_cancel_left hr)]
    rfl
  toJson_error d e h := by
    show Utf8.Valid (plainFormat e)
    unfold plain at h
    dsimp only at h
    split at h
    · split_ifs at h
      obtain rfl := Except.error.inj h
      decide
    · obtain rfl := Except.error.inj h
      decide
  format_element err := by
    show Utf8.Valid (plainFormat (.element err))
    cases err with
    | unsetElement => decide
    | needElementType t =>
      show Utf8.Valid (text "bsoncxx::exception (expected another element type)")
      decide
  format_runtimeError what := by
    have hascii : Utf8.Ascii (text ")") := by decide
    have hvalid : Utf8.Valid (text "std::runtime_error (") := by decide
    exact (Utf8.valid_append_ascii hascii).trans hvalid.append_iff

end SeastarStarter
